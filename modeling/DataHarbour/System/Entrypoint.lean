import DataHarbour.Orchestrator.SparkSubmit
import DataHarbour.Shell.Scripts
import DataHarbour.System.Network
import Std.Data.String.ToNat

/-!
# What a container reports

`entrypoint.sh` with `set -euo pipefail`: it reports `RUNNING`, runs `spark-submit`, reports the
final status and exits with the status of `spark-submit`. Any other command that fails ends the
script on its way, and with it the reports that are still to come.
-/

namespace DataHarbour.System

open Shell JobService Orchestrator

/-! ## The script -/

/-- `echo "..."`; the time stamps in the texts are left out. -/
def echo (text : Process → String) : Words := fun p => ["echo", text p]

/-- `| tee -a "${LOG_FILE}"`. -/
def teeLog (env : Environment) : Words := fun _ =>
  ["tee", "-a", "/var/log/spark/" ++ env "JOB_ID" ++ ".log"]

/-- The call of `jq` that builds the payload of a report. -/
def jqWords (status exitCode : String) : List String :=
  ["jq", "-n", "--arg", "status", status, "--argjson", "exit_code", exitCode,
    "\x7bstatus: $status, exit_code: $exit_code\x7d"]

/-- `auth_header`. -/
def authHeader (env : Environment) : List String :=
  if env "INTERNAL_API_TOKEN" = "" then []
  else ["-H", "X-Internal-Token: " ++ env "INTERNAL_API_TOKEN"]

/-- The call of `curl` that sends a payload. -/
def curlWords (env : Environment) (payload : String) : List String :=
  ["curl", "-s", "-X", "PUT", env "CALLBACK_URL", "-H", "Content-Type: application/json"] ++
    authHeader env ++ ["-d", payload, "--retry", "3", "--retry-delay", "5", "--max-time", "30"]

/-- `report_status`, with its two arguments. -/
def reportStatus (env : Environment) (status exitCode : Process → String) : Script :=
  .call (.block [
    .assign "status" status,
    .assign "exit_code" exitCode,
    .both (.test fun _ => env "CALLBACK_URL" = "") (.return 0),
    .capture "payload" fun p => jqWords (p.vars "status") (p.vars "exit_code"),
    .either (.run fun p => curlWords env (p.vars "payload"))
      (.run (echo fun p => "[WARN] Failed to report job status (" ++ p.vars "status" ++ ")"))])

/-- A line that goes to the output and to the log file. -/
def logLine (env : Environment) (text : Process → String) : Script :=
  .pipeline [echo text, teeLog env]

/-- The call of `spark-submit`. -/
def submitWords (paths : String → List String) (env : Environment) : Words := fun _ =>
  "/opt/spark/bin/spark-submit" :: (sparkSubmit paths env).getD []

/-- The run of `spark-submit`, between `set +e` and `set -e`. -/
def runSpark (paths : String → List String) (env : Environment) : Script :=
  .block [
    .setErrexit false,
    .pipeline [submitWords paths env, teeLog env],
    .assign "EXIT_CODE" fun p => Nat.repr (p.pipestatus.headD 0),
    .setErrexit true]

/-- The end of the script, from the exit code on. -/
def finish (env : Environment) : Script :=
  .block [
    logLine env fun p => "[INFO] spark-submit exit=" ++ p.vars "EXIT_CODE",
    .cond (.test fun p => (p.vars "EXIT_CODE").toNat? = some 0)
      (.assign "STATUS" fun _ => "SUCCESS") (.assign "STATUS" fun _ => "FAILED"),
    reportStatus env (·.vars "STATUS") (·.vars "EXIT_CODE"),
    .run fun _ => ["sleep", "2"],
    .exit fun p => (p.vars "EXIT_CODE").toNat?.getD 0]

/-- `entrypoint.sh` in an environment. The words of `spark-submit` depend on the environment
alone; the assignments that put them together are those of `sparkSubmit`. -/
def entrypoint (paths : String → List String) (env : Environment) : Script :=
  .block [
    .run (echo fun _ => "============================================"),
    .run (echo fun _ => "  DHP Spark Job Container"),
    .run (echo fun _ => "  JOB_ID:     " ++ env.getD "JOB_ID" "not-set"),
    .run (echo fun _ => "  ENTRYPOINT: " ++ env.getD "ENTRYPOINT_SCRIPT" "not-set"),
    .run (echo fun _ => "  STARTED:    "),
    .run (echo fun _ => "============================================"),
    .require fun _ => env "JOB_ID",
    .require fun _ => env "ENTRYPOINT_SCRIPT",
    .run fun _ => ["mkdir", "-p", "/var/log/spark"],
    logLine env fun _ => "[INFO] Reporting RUNNING",
    reportStatus env (fun _ => "RUNNING") (fun _ => "null"),
    runSpark paths env,
    finish env]

/-- A container starts the script; `set -euo pipefail` is its first command. -/
def startProcess : Process := { errexit := true, pipefail := true }

/-! ## What can be seen of a run -/

/-- The payload of a call of `curl`, counted from the end of its words. -/
def sentPayload (c : Command) : Option String :=
  if c.words.head? = some "curl" then c.words.reverse[6]? else none

/-- The status of a call of `spark-submit`. -/
def submitStatus (c : Command) : Option ℕ :=
  if c.words.head? = some "/opt/spark/bin/spark-submit" then some c.answer.status else none

/-- The payloads that are sent to the job service. -/
def sentPayloads (commands : List Command) : List String := commands.filterMap sentPayload

/-- The statuses with which `spark-submit` ended. -/
def submitStatuses (commands : List Command) : List ℕ := commands.filterMap submitStatus

/-- A command other than `spark-submit` and `curl` has failed. -/
def HelperFailed (commands : List Command) : Prop :=
  ∃ c ∈ commands, c.words.head? ≠ some "curl" ∧
    c.words.head? ≠ some "/opt/spark/bin/spark-submit" ∧ c.answer.status ≠ 0

/-- The payloads of the two reports, for the status of `spark-submit`. -/
def runningPayload (payload : String → String → String) : String :=
  payload (JobStatus.value .running) "null"

def finalPayload (payload : String → String → String) (status : ℕ) : String :=
  payload (JobStatus.value (exitStatus status)) (Nat.repr status)

/-- What a run of the script amounts to: the payloads sent, the statuses of `spark-submit` and the
exit status of the container. -/
inductive RunOutcome (env : Environment) (payload : String → String → String)
    (helperFailed : Prop) : List String → List ℕ → ℕ → Prop
  /-- The script ends before `spark-submit`. -/
  | refused {code : ℕ} (hcode : code ≠ 0)
    (hreason : env "JOB_ID" = "" ∨ env "ENTRYPOINT_SCRIPT" = "" ∨ helperFailed)
    {sent : List String}
    (hsent : sent = [] ∨ env "CALLBACK_URL" ≠ "" ∧ sent = [runningPayload payload]) :
    RunOutcome env payload helperFailed sent [] code
  /-- Without a callback URL nothing is sent. -/
  | silent {status code : ℕ} (hurl : env "CALLBACK_URL" = "")
    (hcode : code = status ∨ code ≠ 0 ∧ helperFailed) :
    RunOutcome env payload helperFailed [] [status] code
  /-- The script ends after `spark-submit` and before the final report. -/
  | lost {status code : ℕ} (hurl : env "CALLBACK_URL" ≠ "") (hcode : code ≠ 0)
    (hfailed : helperFailed) :
    RunOutcome env payload helperFailed [runningPayload payload] [status] code
  /-- Both reports are sent. -/
  | reported {status code : ℕ} (hurl : env "CALLBACK_URL" ≠ "")
    (hcode : code = status ∨ code ≠ 0 ∧ helperFailed) :
    RunOutcome env payload helperFailed [runningPayload payload, finalPayload payload status]
      [status] code

/-! ## The pieces of the script -/

/-- A point of the script between two commands. -/
structure At (sent : List String) (statuses : List ℕ) (vars : String → String) (p : Process) :
    Prop where
  errexit : p.errexit = true
  pipefail : p.pipefail = true
  sent : sentPayloads p.ran = sent
  statuses : submitStatuses p.ran = statuses
  vars : ∀ name ∈ ["EXIT_CODE", "STATUS"], p.vars name = vars name

variable {environs : Environs} {env : Environment} {payload : String → String → String}
  {p p' : Process} {sent : List String} {statuses : List ℕ} {vars : String → String}
  {Q : Process → Flow → Prop}

/-- Words that call neither `curl` nor `spark-submit`. -/
def HelperWords (words : List String) : Prop :=
  words.head? ≠ some "curl" ∧ words.head? ≠ some "/opt/spark/bin/spark-submit"

/-- Helpers send nothing. -/
theorem At.helpers (h : At sent statuses vars p) {commands : List Command}
    (hextends : p.Extends p' commands) (hvars : p'.vars = p.vars)
    (hhelpers : ∀ c ∈ commands, HelperWords c.words) : At sent statuses vars p' where
  errexit := hextends.errexit.trans h.errexit
  pipefail := hextends.pipefail.trans h.pipefail
  sent := by
    have hnone : commands.filterMap sentPayload = [] :=
      List.filterMap_eq_nil_iff.mpr fun c hc => if_neg (hhelpers c hc).1
    rw [sentPayloads, hextends.ran, List.filterMap_append, hnone, List.append_nil]
    exact h.sent
  statuses := by
    have hnone : commands.filterMap submitStatus = [] :=
      List.filterMap_eq_nil_iff.mpr fun c hc => if_neg (hhelpers c hc).2
    rw [submitStatuses, hextends.ran, List.filterMap_append, hnone, List.append_nil]
    exact h.statuses
  vars := hvars ▸ h.vars

private theorem helperFailed_of_extends {commands : List Command} (hextends : p.Extends p' commands)
    {c : Command} (hc : c ∈ commands) (hhelper : HelperWords c.words)
    (hstatus : c.answer.status ≠ 0) : HelperFailed p'.ran := by
  refine ⟨c, ?_, hhelper.1, hhelper.2, hstatus⟩
  rw [hextends.ran]
  exact List.mem_append_right _ hc

/-- After a helper: it has succeeded, or the script ends. -/
def Helped (sent : List String) (statuses : List ℕ) (vars : String → String) (p : Process)
    (flow : Flow) : Prop :=
  At sent statuses vars p ∧
    (flow = .next 0 ∨ ∃ code, code ≠ 0 ∧ flow = .exited code ∧ HelperFailed p.ran)

private theorem helped_run {words : Words} (h : At sent statuses vars p)
    (hhelper : HelperWords (words p)) :
    (Script.run words).Ensures environs false p (Helped sent statuses vars) := by
  refine Script.Ensures.run h.errexit fun answer p' hextends hvars => ⟨?_, ?_⟩
  · exact h.helpers hextends hvars (List.forall_mem_singleton.mpr hhelper)
  · split
    · exact .inl rfl
    · next hstatus =>
      exact .inr ⟨_, hstatus, rfl,
        helperFailed_of_extends hextends List.mem_cons_self hhelper hstatus⟩

private theorem helperWords_echo (text : Process → String) (p : Process) :
    HelperWords (echo text p) := by
  constructor <;> simp [echo]

private theorem helperWords_teeLog (env : Environment) (p : Process) :
    HelperWords (teeLog env p) := by
  constructor <;> simp [teeLog]

private theorem helped_logLine (text : Process → String) (h : At sent statuses vars p) :
    (logLine env text).Ensures environs false p (Helped sent statuses vars) := by
  have hwords : ∀ commands : List Command, commands.map Command.words =
      [echo text, teeLog env].map (fun words => words p) →
        ∀ c ∈ commands, HelperWords c.words := by
    intro commands hcommands c hc
    have hmem := hcommands ▸ List.mem_map_of_mem hc
    simp only [List.map_cons, List.map_nil, List.mem_cons, List.not_mem_nil, or_false] at hmem
    rcases hmem with hecho | htee
    · exact hecho ▸ helperWords_echo text p
    · exact htee ▸ helperWords_teeLog env p
  apply Script.Ensures.pipeline h.errexit
  · intro commands p' hextends hvars hcommands
    exact ⟨h.helpers hextends hvars (hwords commands hcommands), .inl rfl⟩
  · intro commands p' status hextends hvars hcommands hne ⟨c, hc, hstatus⟩
    have hall := hwords commands hcommands
    exact ⟨h.helpers hextends hvars hall, .inr ⟨status, hne, rfl,
      helperFailed_of_extends hextends hc (hall c hc) hstatus⟩⟩

/-- A helper and what follows it. -/
theorem Helped.andThen {script rest : Script}
    (h : script.Ensures environs false p (Helped sent statuses vars))
    (hrest : ∀ p', At sent statuses vars p' → rest.Ensures environs false p' Q)
    (hstop : ∀ p' code, code ≠ 0 → At sent statuses vars p' → HelperFailed p'.ran →
      Q p' (.exited code)) : (Script.seq script rest).Ensures environs false p Q := by
  refine Script.Ensures.seq h ?_ ?_ ?_
  · exact fun p' _ hhelped => hrest p' hhelped.1
  · rintro p' status ⟨-, hnext | ⟨code, -, hexited, -⟩⟩
    · cases hnext
    · cases hexited
  · rintro p' status ⟨hat, hnext | ⟨code, hcode, hexited, hfailed⟩⟩
    · cases hnext
    · obtain rfl := Flow.exited.inj hexited
      exact hstop p' status hcode hat hfailed

/-! ## The reports -/

/-- What has been sent after a report. -/
def reportedTo (env : Environment) (sent : List String) (body : String) : List String :=
  if env "CALLBACK_URL" = "" then sent else sent ++ [body]

/-- After `report_status`: without a callback URL it does nothing, else the payload is sent, unless
a helper has ended the script. -/
def Reported (env : Environment) (sent : List String) (body : String) (statuses : List ℕ)
    (vars : String → String) (p : Process) (flow : Flow) : Prop :=
  flow = .next 0 ∧ At (reportedTo env sent body) statuses vars p ∨
    ∃ code sent', code ≠ 0 ∧ flow = .exited code ∧ HelperFailed p.ran ∧
      env "CALLBACK_URL" ≠ "" ∧ (sent' = sent ∨ sent' = sent ++ [body]) ∧ At sent' statuses vars p

/-- The script assigns its other variables without effect on what is sent. -/
theorem At.assign (h : At sent statuses vars p) {name : String} (value : String)
    (hname : name ∉ ["EXIT_CODE", "STATUS"]) :
    At sent statuses vars { p with vars := Function.update p.vars name value } where
  errexit := h.errexit
  pipefail := h.pipefail
  sent := h.sent
  statuses := h.statuses
  vars := by
    intro other hother
    have hne : other ≠ name := ne_of_mem_of_not_mem hother hname
    exact (Function.update_of_ne hne value p.vars).trans (h.vars other hother)

/-- `curl` is called with a payload. -/
theorem At.curl (h : At sent statuses vars p) {body : String} {answer : Answer}
    {commands : List Command}
    (hextends : p.Extends p' (⟨curlWords env body, answer⟩ :: commands))
    (hvars : p'.vars = p.vars) (hhelpers : ∀ c ∈ commands, HelperWords c.words) :
    At (sent ++ [body]) statuses vars p' := by
  have hcurl : At (sent ++ [body]) statuses vars
      { p with ran := p.ran ++ [⟨curlWords env body, answer⟩] } := by
    refine ⟨h.errexit, h.pipefail, ?_, ?_, h.vars⟩
    · have hpayload : sentPayload ⟨curlWords env body, answer⟩ = some body := by
        simp [sentPayload, curlWords]
      rw [sentPayloads, List.filterMap_append, List.filterMap_cons_some hpayload]
      exact congrArg (· ++ [body]) h.sent
    · have hsubmit : submitStatus ⟨curlWords env body, answer⟩ = none := by
        simp [submitStatus, curlWords]
      rw [submitStatuses, List.filterMap_append, List.filterMap_cons_none hsubmit,
        List.filterMap_nil, List.append_nil]
      exact h.statuses
  refine hcurl.helpers ⟨hextends.errexit, hextends.pipefail, ?_⟩ hvars hhelpers
  rw [hextends.ran, List.append_assoc, List.singleton_append]

/-- `jq` builds the payload of a report if it succeeds. -/
def JqBuilds (environs : Environs) (payload : String → String → String) : Prop :=
  ∀ ran status exitCode, (environs ran (jqWords status exitCode)).status = 0 →
    (environs ran (jqWords status exitCode)).output = payload status exitCode

/-- A call of `curl` that fails is followed by a warning, and the function goes on. -/
theorem reported_send (hurl : env "CALLBACK_URL" ≠ "") {body : String} {text : Process → String}
    (h : At sent statuses vars p) (hbody : p.vars "payload" = body) :
    (Script.either (.run fun p => curlWords env (p.vars "payload")) (.run (echo text))).Ensures
      environs false p (Reported env sent body statuses vars) := by
  subst hbody
  have hsent : ∀ p', At (sent ++ [p.vars "payload"]) statuses vars p' →
      At (reportedTo env sent (p.vars "payload")) statuses vars p' := by
    intro p' hat
    rwa [reportedTo, if_neg hurl]
  apply Script.Ensures.run_either h.errexit
  · intro answer p' hextends hvars _
    exact .inl ⟨rfl, hsent p' (h.curl hextends hvars (by simp))⟩
  · intro answer answer' p₁ p' hextends hvars
    have hhelper : HelperWords (echo text p₁) := helperWords_echo text p₁
    have hat := h.curl hextends hvars (List.forall_mem_singleton.mpr hhelper)
    split
    · exact .inl ⟨rfl, hsent p' hat⟩
    · next hstatus =>
      refine .inr ⟨_, _, hstatus, rfl, ?_, hurl, .inr rfl, hat⟩
      exact helperFailed_of_extends hextends (List.mem_cons_of_mem _ List.mem_cons_self) hhelper
        hstatus

private theorem helperWords_jq (status exitCode : String) :
    HelperWords (jqWords status exitCode) := by
  constructor <;> simp [jqWords]

/-- The payload is built and sent. -/
theorem reported_build (hjq : JqBuilds environs payload) (hurl : env "CALLBACK_URL" ≠ "")
    {text : Process → String} (h : At sent statuses vars p) :
    (Script.seq (.capture "payload" fun p => jqWords (p.vars "status") (p.vars "exit_code"))
      (.either (.run fun p => curlWords env (p.vars "payload")) (.run (echo text)))).Ensures
        environs false p
          (Reported env sent (payload (p.vars "status") (p.vars "exit_code")) statuses vars) := by
  have hhelper := helperWords_jq (p.vars "status") (p.vars "exit_code")
  -- The helper `jq` has assigned `payload` where it has succeeded.
  apply Script.Ensures.seq (R := fun p' flow => At sent statuses vars p' ∧
    (flow = .next 0 ∧ p'.vars "payload" = payload (p.vars "status") (p.vars "exit_code") ∨
      ∃ code, code ≠ 0 ∧ flow = .exited code ∧ HelperFailed p'.ran))
  · refine Script.Ensures.capture h.errexit fun p' hextends hvars => ?_
    have hassigned := h.assign
      (environs p.ran (jqWords (p.vars "status") (p.vars "exit_code"))).output
      (by decide : "payload" ∉ ["EXIT_CODE", "STATUS"])
    refine ⟨hassigned.helpers ⟨hextends.errexit, hextends.pipefail, hextends.ran⟩ hvars
      (List.forall_mem_singleton.mpr hhelper), ?_⟩
    split
    · next hstatus =>
      refine .inl ⟨rfl, ?_⟩
      rw [hvars, Function.update_self]
      exact hjq _ _ _ hstatus
    · next hstatus =>
      exact .inr ⟨_, hstatus, rfl,
        helperFailed_of_extends hextends List.mem_cons_self hhelper hstatus⟩
  · rintro p' status ⟨hat, ⟨-, hpayload⟩ | ⟨code, -, hflow, -⟩⟩
    · exact reported_send hurl hat hpayload
    · cases hflow
  · rintro p' status ⟨-, ⟨hflow, -⟩ | ⟨code, -, hflow, -⟩⟩ <;> cases hflow
  · rintro p' status ⟨hat, ⟨hflow, -⟩ | ⟨code, hcode, hflow, hfailed⟩⟩
    · cases hflow
    · obtain rfl := Flow.exited.inj hflow
      exact .inr ⟨status, sent, hcode, rfl, hfailed, hurl, .inl rfl, hat⟩

private theorem reported_reportStatus (hjq : JqBuilds environs payload)
    {status exitCode : Process → String}
    (hexit : ∀ (p : Process) value,
      exitCode { p with vars := Function.update p.vars "status" value } = exitCode p)
    (h : At sent statuses vars p) :
    (reportStatus env status exitCode).Ensures environs false p
      (Reported env sent (payload (status p) (exitCode p)) statuses vars) := by
  -- The body leaves what the function leaves, or returns at once.
  apply Script.Ensures.call (R := fun p' flow =>
    Reported env sent (payload (status p) (exitCode p)) statuses vars p' flow ∨
      flow = .returned 0 ∧ env "CALLBACK_URL" = "" ∧ At sent statuses vars p')
  · refine Script.Ensures.assign_seq (Script.Ensures.assign_seq ?_)
    have hat := (h.assign (status p) (by decide : "status" ∉ ["EXIT_CODE", "STATUS"])).assign
      (exitCode { p with vars := Function.update p.vars "status" (status p) })
      (by decide : "exit_code" ∉ ["EXIT_CODE", "STATUS"])
    rw [hexit] at hat ⊢
    have hstatus : Function.update (Function.update p.vars "status" (status p)) "exit_code"
        (exitCode p) "status" = status p := by
      simp [Function.update]
    have hcode : Function.update (Function.update p.vars "status" (status p)) "exit_code"
        (exitCode p) "exit_code" = exitCode p := Function.update_self ..
    -- Without a callback URL the function returns here, else the rest of the body follows.
    apply Script.Ensures.seq (R := fun p' flow => At sent statuses vars p' ∧
      p'.vars "status" = status p ∧ p'.vars "exit_code" = exitCode p ∧
        (env "CALLBACK_URL" = "" ∧ flow = .returned 0 ∨
          env "CALLBACK_URL" ≠ "" ∧ flow = .next 1))
    · apply Script.Ensures.test_both
      · intro hurl
        exact ⟨⟨hat.errexit, hat.pipefail, hat.sent, hat.statuses, hat.vars⟩, hstatus, hcode,
          .inl ⟨of_decide_eq_true hurl, rfl⟩⟩
      · intro hurl
        exact ⟨⟨hat.errexit, hat.pipefail, hat.sent, hat.statuses, hat.vars⟩, hstatus, hcode,
          .inr ⟨of_decide_eq_false hurl, rfl⟩⟩
    · rintro p' code ⟨hat', hstatus, hcode, ⟨-, hflow⟩ | ⟨hurl, -⟩⟩
      · cases hflow
      · rw [← hstatus, ← hcode]
        exact (reported_build hjq hurl hat').mono fun _ _ => .inl
    · rintro p' code ⟨hat', -, -, ⟨hurl, hflow⟩ | ⟨-, hflow⟩⟩
      · exact .inr ⟨hflow, hurl, hat'⟩
      · cases hflow
    · rintro p' code ⟨-, -, -, ⟨-, hflow⟩ | ⟨-, hflow⟩⟩ <;> cases hflow
  · rintro p' code ((⟨hflow, hat⟩ | ⟨_, _, -, hflow, -⟩) | ⟨hflow, -⟩)
    · obtain rfl := Flow.next.inj hflow
      exact .inl ⟨(Process.check_of_errexit hat.errexit 0).trans (if_pos rfl), hat⟩
    · cases hflow
    · cases hflow
  · rintro p' code ((⟨hflow, -⟩ | ⟨_, _, -, hflow, -⟩) | ⟨hflow, hurl, hat⟩)
    · cases hflow
    · cases hflow
    · obtain rfl := Flow.returned.inj hflow
      refine .inl ⟨(Process.check_of_errexit hat.errexit 0).trans (if_pos rfl), ?_⟩
      rwa [reportedTo, if_pos hurl]
  · rintro p' code (hreported | ⟨hflow, -⟩)
    · exact hreported
    · cases hflow

/-- A report and what follows it. -/
theorem Reported.andThen {script rest : Script} {body : String}
    (h : script.Ensures environs false p (Reported env sent body statuses vars))
    (hrest : ∀ p', At (reportedTo env sent body) statuses vars p' →
      rest.Ensures environs false p' Q)
    (hstop : ∀ p' code sent', code ≠ 0 → env "CALLBACK_URL" ≠ "" →
      sent' = sent ∨ sent' = sent ++ [body] → At sent' statuses vars p' → HelperFailed p'.ran →
        Q p' (.exited code)) : (Script.seq script rest).Ensures environs false p Q := by
  refine Script.Ensures.seq h ?_ ?_ ?_
  · rintro p' status (⟨-, hat⟩ | ⟨code, sent', -, hflow, -⟩)
    · exact hrest p' hat
    · cases hflow
  · rintro p' status (⟨hflow, -⟩ | ⟨code, sent', -, hflow, -⟩) <;> cases hflow
  · rintro p' status (⟨hflow, -⟩ | ⟨code, sent', hcode, hflow, hfailed, hurl, hsent, hat⟩)
    · cases hflow
    · obtain rfl := Flow.exited.inj hflow
      exact hstop p' status sent' hcode hurl hsent hat hfailed

/-! ## The run of `spark-submit` -/

/-- An assignment gives the same in all processes at one point. -/
theorem At.update (h : At sent statuses vars p) (assigned value : String) {name : String}
    (hname : name ∈ ["EXIT_CODE", "STATUS"]) :
    Function.update p.vars assigned value name = Function.update vars assigned value name := by
  by_cases hassigned : name = assigned
  · rw [hassigned, Function.update_self, Function.update_self]
  · rw [Function.update_of_ne hassigned, Function.update_of_ne hassigned]
    exact h.vars name hname

/-- `set +e` keeps the script going, and the status of the first stage is the exit code. -/
theorem ensures_runSpark (paths : String → List String) (h : At sent [] vars p) :
    (runSpark paths env).Ensures environs false p fun p' flow => flow = .next 0 ∧
      ∃ status : ℕ, At sent [status] (Function.update vars "EXIT_CODE" (Nat.repr status)) p' := by
  refine Script.Ensures.setErrexit_seq ?_
  apply Script.Ensures.seq (R := fun p' flow => (∃ code, flow = .next code) ∧
    p'.pipefail = true ∧ p'.vars = p.vars ∧ sentPayloads p'.ran = sent ∧
      submitStatuses p'.ran = [p'.pipestatus.headD 0])
  · refine Script.Ensures.pipeline_ignored rfl ?_
    intro commands p' code hextends hvars hwords hstatuses
    obtain ⟨submit, rest, rfl, hsubmit, hrest⟩ := List.map_eq_cons_iff.mp hwords
    obtain ⟨tee, rest, rfl, htee, hrest⟩ := List.map_eq_cons_iff.mp hrest
    obtain rfl := List.map_eq_nil_iff.mp hrest
    have hsubmitStatus : submitStatus submit = some submit.answer.status :=
      if_pos (by rw [hsubmit]; rfl)
    have hteeStatus : submitStatus tee = none := if_neg (by rw [htee]; simp [teeLog])
    refine ⟨⟨code, rfl⟩, hextends.pipefail.trans h.pipefail, hvars, ?_, ?_⟩
    · have hsubmitPayload : sentPayload submit = none :=
        if_neg (by rw [hsubmit]; simp [submitWords])
      have hteePayload : sentPayload tee = none := if_neg (by rw [htee]; simp [teeLog])
      rw [sentPayloads, hextends.ran, List.filterMap_append,
        List.filterMap_cons_none hsubmitPayload, List.filterMap_cons_none hteePayload,
        List.filterMap_nil, List.append_nil]
      exact h.sent
    · rw [hstatuses, submitStatuses, hextends.ran, List.filterMap_append,
        List.filterMap_cons_some hsubmitStatus, List.filterMap_cons_none hteeStatus]
      exact congrArg (· ++ [submit.answer.status]) h.statuses
  · rintro p' code ⟨-, hpipefail, hvars, hsent, hsubmitted⟩
    refine Script.Ensures.assign_seq
      ⟨rfl, p'.pipestatus.headD 0, rfl, hpipefail, hsent, hsubmitted, ?_⟩
    intro name hname
    simp only [hvars]
    exact h.update "EXIT_CODE" _ hname
  · rintro p' code ⟨⟨_, hflow⟩, -⟩
    cases hflow
  · rintro p' code ⟨⟨_, hflow⟩, -⟩
    cases hflow

/-! ## The whole script -/

/-- The outcome of a run that has come to its end. -/
def Ended (env : Environment) (payload : String → String → String) (p : Process) (flow : Flow) :
    Prop :=
  ∃ code, flow = .exited code ∧
    RunOutcome env payload (HelperFailed p.ran) (sentPayloads p.ran) (submitStatuses p.ran) code

/-- A helper that fails after `spark-submit` ends the script with its own status. -/
theorem At.ended_of_failed {status code : ℕ} (h : At sent [status] vars p) (hcode : code ≠ 0)
    (hfailed : HelperFailed p.ran)
    (hsent : sent = reportedTo env [] (runningPayload payload) ∨
      sent = reportedTo env (reportedTo env [] (runningPayload payload))
        (finalPayload payload status)) : Ended env payload p (.exited code) := by
  refine ⟨code, rfl, ?_⟩
  rw [h.sent, h.statuses]
  by_cases hurl : env "CALLBACK_URL" = ""
  · simp only [reportedTo, if_pos hurl, or_self] at hsent
    exact hsent ▸ .silent hurl (.inr ⟨hcode, hfailed⟩)
  · simp only [reportedTo, if_neg hurl] at hsent
    rcases hsent with hsent | hsent
    · exact hsent ▸ .lost hurl hcode hfailed
    · exact hsent ▸ .reported hurl (.inr ⟨hcode, hfailed⟩)

/-- A script that has come through exits with the status of `spark-submit`. -/
theorem At.ended {status : ℕ} (h : At sent [status] vars p)
    (hsent : sent = reportedTo env (reportedTo env [] (runningPayload payload))
      (finalPayload payload status)) : Ended env payload p (.exited status) := by
  refine ⟨status, rfl, ?_⟩
  rw [h.sent, h.statuses]
  by_cases hurl : env "CALLBACK_URL" = ""
  · simp only [reportedTo, if_pos hurl] at hsent
    exact hsent ▸ .silent hurl (.inl rfl)
  · simp only [reportedTo, if_neg hurl] at hsent
    exact hsent ▸ .reported hurl (.inl rfl)

/-- The final status is that of the exit code. -/
theorem ensures_status {status : ℕ} (h : At sent statuses vars p)
    (hcode : vars "EXIT_CODE" = Nat.repr status) :
    (Script.cond (.test fun p => (p.vars "EXIT_CODE").toNat? = some 0)
      (.assign "STATUS" fun _ => "SUCCESS") (.assign "STATUS" fun _ => "FAILED")).Ensures
        environs false p fun p' flow => flow = .next 0 ∧
          At sent statuses (Function.update vars "STATUS" (JobStatus.value (exitStatus status)))
            p' := by
  have htest : (p.vars "EXIT_CODE").toNat? = some status := by
    rw [h.vars "EXIT_CODE" (by decide), hcode]
    exact Nat.toNat?_repr status
  apply Script.Ensures.test_cond
  · intro hzero
    obtain rfl : status = 0 := Option.some.inj (htest ▸ of_decide_eq_true hzero)
    exact ⟨rfl, h.errexit, h.pipefail, h.sent, h.statuses, fun _ => h.update "STATUS" "SUCCESS"⟩
  · intro hzero
    have hne : status ≠ 0 := fun heq => of_decide_eq_false hzero (heq ▸ htest)
    have hvalue : JobStatus.value (exitStatus status) = "FAILED" := by
      simp [exitStatus, hne, JobStatus.value]
    rw [hvalue]
    exact ⟨rfl, h.errexit, h.pipefail, h.sent, h.statuses, fun _ => h.update "STATUS" "FAILED"⟩

private theorem ensures_finish (hjq : JqBuilds environs payload) {status : ℕ}
    (h : At (reportedTo env [] (runningPayload payload)) [status] vars p)
    (hcode : vars "EXIT_CODE" = Nat.repr status) :
    (finish env).Ensures environs false p (Ended env payload) := by
  refine Helped.andThen (helped_logLine _ h) ?_
    fun p' code hne hat hfailed => hat.ended_of_failed hne hfailed (.inl rfl)
  intro p₁ h₁
  refine Script.Ensures.seq (ensures_status h₁ hcode) ?_ ?_ ?_
  · rintro p₂ code ⟨-, h₂⟩
    have hstatus := h₂.vars "STATUS" (by decide)
    have hexit := h₂.vars "EXIT_CODE" (by decide)
    rw [Function.update_self] at hstatus
    rw [Function.update_of_ne (by decide), hcode] at hexit
    have hreported : (reportStatus env (·.vars "STATUS") (·.vars "EXIT_CODE")).Ensures environs
        false p₂ (Reported env _ (payload (p₂.vars "STATUS") (p₂.vars "EXIT_CODE")) _ _) :=
      reported_reportStatus hjq (fun p value => by simp [Function.update]) h₂
    rw [hstatus, hexit] at hreported
    refine Reported.andThen hreported ?_ ?_
    · intro p₃ h₃
      refine Helped.andThen (helped_run h₃ ⟨by simp, by simp⟩) ?_
        fun p' code hne hat hfailed => hat.ended_of_failed hne hfailed (.inr rfl)
      intro p₄ h₄
      have hexit₄ := h₄.vars "EXIT_CODE" (by decide)
      rw [Function.update_of_ne (by decide), hcode] at hexit₄
      have hvalue : ((p₄.vars "EXIT_CODE").toNat?.getD 0) = status := by
        rw [hexit₄, Nat.toNat?_repr, Option.getD_some]
      have hended : Ended env payload p₄ (.exited status) := h₄.ended rfl
      rwa [← hvalue] at hended
    · intro p' code sent' hne hurl hsent hat hfailed
      exact hat.ended_of_failed hne hfailed
        (hsent.imp_right fun hsent => hsent.trans (if_neg hurl).symm)
  · rintro p' code ⟨hflow, -⟩
    cases hflow
  · rintro p' code ⟨hflow, -⟩
    cases hflow

/-- A helper that fails before `spark-submit` ends the script with its own status. -/
theorem At.refused {code : ℕ} (h : At sent [] vars p) (hcode : code ≠ 0)
    (hreason : env "JOB_ID" = "" ∨ env "ENTRYPOINT_SCRIPT" = "" ∨ HelperFailed p.ran)
    (hsent : sent = [] ∨ env "CALLBACK_URL" ≠ "" ∧ sent = [runningPayload payload]) :
    Ended env payload p (.exited code) := by
  refine ⟨code, rfl, ?_⟩
  rw [h.sent, h.statuses]
  exact .refused hcode hreason hsent

/-- From the report of `RUNNING` on. -/
theorem ensures_reports (hjq : JqBuilds environs payload) (paths : String → List String)
    (h : At [] [] vars p) :
    (Script.block [reportStatus env (fun _ => "RUNNING") (fun _ => "null"), runSpark paths env,
      finish env]).Ensures environs false p (Ended env payload) := by
  refine Reported.andThen (reported_reportStatus hjq (fun _ _ => rfl) h) ?_ ?_
  · intro p₁ h₁
    refine Script.Ensures.seq (ensures_runSpark paths h₁) ?_ ?_ ?_
    · rintro p₂ code ⟨-, status, h₂⟩
      exact ensures_finish hjq h₂ (Function.update_self ..)
    · rintro p' code ⟨hflow, -⟩
      cases hflow
    · rintro p' code ⟨hflow, -⟩
      cases hflow
  · intro p' code sent' hne hurl hsent hat hfailed
    exact hat.refused hne (.inr (.inr hfailed)) (hsent.imp_right fun hsent => ⟨hurl, hsent⟩)

/-- Every run of the script comes to its end with one of the outcomes. -/
theorem ensures_entrypoint (hjq : JqBuilds environs payload) (paths : String → List String)
    (env : Environment) :
    (entrypoint paths env).Ensures environs false startProcess (Ended env payload) := by
  have hstop : ∀ (p' : Process) (code : ℕ), code ≠ 0 → At [] [] (fun _ => "") p' →
      HelperFailed p'.ran → Ended env payload p' (.exited code) :=
    fun p' code hne hat hfailed => hat.refused hne (.inr (.inr hfailed)) (.inl rfl)
  have hecho : ∀ {rest : Script} (text : Process → String),
      (∀ p', At [] [] (fun _ => "") p' →
        rest.Ensures environs false p' (Ended env payload)) → ∀ p, At [] [] (fun _ => "") p →
          (Script.seq (.run (echo text)) rest).Ensures environs false p (Ended env payload) :=
    fun text hrest p h =>
      Helped.andThen (helped_run h (helperWords_echo text p)) hrest hstop
  -- The banner, and then the two variables that are required.
  refine hecho _ (hecho _ (hecho _ (hecho _ (hecho _ (hecho _ ?_))))) startProcess
    ⟨rfl, rfl, rfl, rfl, fun _ _ => rfl⟩
  intro p h
  refine Script.Ensures.require_seq ?_ fun _ => Script.Ensures.require_seq ?_ fun _ => ?_
  · exact fun hempty => h.refused one_ne_zero (.inl hempty) (.inl rfl)
  · exact fun hempty => h.refused one_ne_zero (.inr (.inl hempty)) (.inl rfl)
  · refine Helped.andThen (helped_run h ⟨by simp, by simp⟩) ?_ hstop
    intro p₁ h₁
    refine Helped.andThen (helped_logLine _ h₁) ?_ hstop
    exact fun p₂ h₂ => ensures_reports hjq paths h₂

/-- The reports of a run that comes through. -/
def reports (env : Environment) (payload : String → String → String) (status : ℕ) : List String :=
  if env "CALLBACK_URL" = "" then [] else [runningPayload payload, finalPayload payload status]

/-- A container that exits with 0 has run its job to the end and reported it. -/
theorem RunOutcome.of_zero {helperFailed : Prop} {code : ℕ}
    (h : RunOutcome env payload helperFailed sent statuses code) (hcode : code = 0) :
    statuses = [0] ∧ sent = reports env payload 0 := by
  cases h with
  | refused hne _ _ => exact absurd hcode hne
  | silent hurl hstatus =>
    rcases hstatus with rfl | ⟨hne, -⟩
    · exact ⟨congrArg ([·]) hcode, (if_pos hurl).symm⟩
    · exact absurd hcode hne
  | lost hurl hne _ => exact absurd hcode hne
  | reported hurl hstatus =>
    rcases hstatus with rfl | ⟨hne, -⟩
    · subst hcode
      exact ⟨rfl, (if_neg hurl).symm⟩
    · exact absurd hcode hne

/-- If no helper fails, the container ends as its job does and reports it. -/
theorem RunOutcome.of_not_failed {helperFailed : Prop} {code : ℕ}
    (h : RunOutcome env payload helperFailed sent statuses code) (hjobId : env "JOB_ID" ≠ "")
    (hscript : env "ENTRYPOINT_SCRIPT" ≠ "") (hfailed : ¬helperFailed) :
    statuses = [code] ∧ sent = reports env payload code := by
  cases h with
  | refused _ hreason _ =>
    rcases hreason with hempty | hempty | hhelper
    · exact absurd hempty hjobId
    · exact absurd hempty hscript
    · exact absurd hhelper hfailed
  | silent hurl hstatus =>
    rcases hstatus with rfl | ⟨-, hhelper⟩
    · exact ⟨rfl, (if_pos hurl).symm⟩
    · exact absurd hhelper hfailed
  | lost _ _ hhelper => exact absurd hhelper hfailed
  | reported hurl hstatus =>
    rcases hstatus with rfl | ⟨-, hhelper⟩
    · exact ⟨rfl, (if_neg hurl).symm⟩
    · exact absurd hhelper hfailed

private theorem outcome_entrypoint (hjq : JqBuilds environs payload) (paths : String → List String)
    (env : Environment) :
    let run := (entrypoint paths env).execute environs startProcess
    RunOutcome env payload (HelperFailed run.1.ran) (sentPayloads run.1.ran)
      (submitStatuses run.1.ran) run.2 := by
  obtain ⟨code, hflow, h⟩ := ensures_entrypoint hjq paths env
  have hrun : (entrypoint paths env).execute environs startProcess =
      (((entrypoint paths env).eval environs false startProcess).1, code) := by
    rw [Script.execute]
    generalize (entrypoint paths env).eval environs false startProcess = result at hflow
    obtain ⟨p', flow⟩ := result
    subst hflow
    rfl
  rw [hrun]
  exact h

/-- Whatever the commands answer, a run of `entrypoint.sh` has one of the outcomes. If it exits
with 0, `spark-submit` has ended with 0, and with a callback URL this is reported after `RUNNING`.
If only `spark-submit` and `curl` fail, the exit status is that of `spark-submit`, and the reports
agree with it. -/
theorem container_reports {environs : Environs} {payload : String → String → String}
    (hjq : JqBuilds environs payload) (paths : String → List String) (env : Environment) :
    let run := (entrypoint paths env).execute environs startProcess
    let sent := sentPayloads run.1.ran
    let statuses := submitStatuses run.1.ran
    RunOutcome env payload (HelperFailed run.1.ran) sent statuses run.2 ∧
      (run.2 = 0 → statuses = [0] ∧ sent = reports env payload 0) ∧
      (env "JOB_ID" ≠ "" → env "ENTRYPOINT_SCRIPT" ≠ "" → ¬HelperFailed run.1.ran →
        statuses = [run.2] ∧ sent = reports env payload run.2) := by
  intro run sent statuses
  have houtcome : RunOutcome env payload (HelperFailed run.1.ran) sent statuses run.2 :=
    outcome_entrypoint hjq paths env
  exact ⟨houtcome, houtcome.of_zero, houtcome.of_not_failed⟩

/-- The payload of a report as `jq` writes it. -/
def reportJson (status exitCode : String) : String :=
  "\x7b\n  \"status\": \"" ++ status ++ "\",\n  \"exit_code\": " ++ exitCode ++ "\n\x7d"

/-- The job fails with 3 and the job service does not answer. -/
def failingEnvirons : Environs := fun _ words =>
  match words with
  | ["jq", _, _, _, status, _, _, exitCode, _] => { output := reportJson status exitCode }
  | "/opt/spark/bin/spark-submit" :: _ => { status := 3 }
  | "curl" :: _ => { status := 7 }
  | _ => {}

/-- A container of the local setup. -/
def localEnvironment : Environment := fun name =>
  if name = "JOB_ID" then "job-1"
  else if name = "ENTRYPOINT_SCRIPT" then "s3://scripts/etl.py"
  else if name = "CALLBACK_URL" then "http://job-service:8000/api/v1/jobs/job-1/status"
  else ""

/-- What the container of a failing job reports. -/
theorem container_reports_failing :
    let run := (entrypoint (fun _ => []) localEnvironment).execute failingEnvirons startProcess
    RunOutcome localEnvironment reportJson (HelperFailed run.1.ran) (sentPayloads run.1.ran)
      (submitStatuses run.1.ran) run.2 ∧
      (run.2 = 0 → submitStatuses run.1.ran = [0] ∧
        sentPayloads run.1.ran = reports localEnvironment reportJson 0) ∧
      ("job-1" ≠ "" → "s3://scripts/etl.py" ≠ "" → ¬HelperFailed run.1.ran →
        submitStatuses run.1.ran = [run.2] ∧
          sentPayloads run.1.ran = reports localEnvironment reportJson run.2) :=
  container_reports (fun _ _ _ _ => rfl) (fun _ => []) localEnvironment

/-- The log file cannot be written. -/
def fullDiskEnvirons : Environs := fun _ words =>
  if words.head? = some "tee" then { status := 1 } else {}

-- A log file that cannot be written ends the container before anything is reported.
example :
    let run := (entrypoint (fun _ => []) localEnvironment).execute fullDiskEnvirons startProcess
    run.2 = 1 ∧ sentPayloads run.1.ran = [] ∧ submitStatuses run.1.ran = [] := by decide

/-! ## The container of the network -/

/-- A report reaches the job service and is handled. -/
structure Receipt where
  /-- The number of the report among those of the container. -/
  report : ℕ
  now : Time
  /-- The outcome of the publish that the service makes. -/
  delivery : Delivery

/-- What the job service makes of the reports that reach it, one after the other. -/
def received (jobId : JobId) (updates : List JobStatusUpdate) (receipts : List Receipt)
    (w : World) : World :=
  receipts.foldl (fun w receipt =>
    match updates[receipt.report]? with
    | some u => (updateJobStatus w jobId receipt.now receipt.delivery u).1
    | none => w) w

/-- The final report for an exit code. -/
def finalUpdate (status : ℕ) : JobStatusUpdate where
  status := exitStatus status
  exitCode := some status

section Refinement

variable {ι : Type*}

/-- The steps in which reports arrive, for a container that has sent none yet. -/
def arrivals (s : Network ι) (receipts : List Receipt) : List (NetworkStep ι) :=
  receipts.flatMap fun receipt =>
    [.arrive (s.sent.length + receipt.report) receipt.now receipt.delivery,
      .commit s.sessions.length]

/-- The steps of a container as far as it has reported. -/
inductive Follows (i : ℕ) (statuses : List ℕ) :
    List JobStatusUpdate → List (NetworkStep ι) → Prop
  | nothing : Follows i statuses [] []
  | running : Follows i statuses [{ status := .running }] [.report i]
  | finished {status : ℕ} (hstatus : status ∈ statuses) :
    Follows i statuses [{ status := .running }, finalUpdate status] [.report i, .finish i status]

variable {i : ℕ} {updates : List JobStatusUpdate} {steps : List (NetworkStep ι)}

/-- What the job service reads of the reports of a run. -/
theorem RunOutcome.follows {helperFailed : Prop} {code : ℕ}
    (h : RunOutcome env payload helperFailed sent statuses code)
    {readUpdate : String → Option JobStatusUpdate}
    (hrunning : readUpdate (runningPayload payload) = some { status := .running })
    (hfinal : ∀ status ∈ statuses,
      readUpdate (finalPayload payload status) = some (finalUpdate status)) (i : ℕ) :
    ∃ steps : List (NetworkStep ι), Follows i statuses (sent.filterMap readUpdate) steps := by
  cases h with
  | refused _ _ hsent =>
    rcases hsent with rfl | ⟨-, rfl⟩
    · exact ⟨[], .nothing⟩
    · exact ⟨[.report i], by simpa [hrunning] using Follows.running⟩
  | silent => exact ⟨[], .nothing⟩
  | lost => exact ⟨[.report i], by simpa [hrunning] using Follows.running⟩
  | @reported status _ _ _ =>
    refine ⟨[.report i, .finish i status], ?_⟩
    have hread := hfinal status List.mem_cons_self
    simpa [hrunning, hread] using Follows.finished List.mem_cons_self

/-- A container that has made both reports has made both steps. -/
theorem Follows.eq_of_reports {code : ℕ} {readUpdate : String → Option JobStatusUpdate}
    (h : Follows i [code] ((reports env payload code).filterMap readUpdate) steps)
    (hurl : env "CALLBACK_URL" ≠ "")
    (hrunning : readUpdate (runningPayload payload) = some { status := .running })
    (hfinal : readUpdate (finalPayload payload code) = some (finalUpdate code)) :
    steps = [.report i, .finish i code] := by
  have hupdates : (reports env payload code).filterMap readUpdate =
      [{ status := .running }, finalUpdate code] := by
    rw [reports, if_neg hurl, List.filterMap_cons_some hrunning, List.filterMap_cons_some hfinal,
      List.filterMap_nil]
  rw [hupdates] at h
  generalize finalUpdate code = final at h
  cases h with
  | finished hmem => rw [List.mem_singleton.mp hmem]

variable [DecidableEq ι] {s t : Network ι}

/-- The steps of a container send its reports and change nothing in the job service. -/
theorem Follows.run_steps (h : Follows i statuses updates steps) {c : Container}
    (hc : s.containers[i]? = some c) (hphase : c.phase = .started) :
    (Machine.run networkStep s steps).world = s.world ∧
      (Machine.run networkStep s steps).sessions = s.sessions ∧
      (Machine.run networkStep s steps).sent = s.sent ++ updates.map (Prod.mk c.request.jobId) := by
  have hreport : networkStep s (.report i) =
      s.send i c.request.jobId { status := .running } .running := by
    simp only [networkStep, hc, hphase, if_true]
  cases h with
  | nothing => exact ⟨rfl, rfl, (List.append_nil _).symm⟩
  | running =>
    rw [Machine.run_cons, hreport]
    exact ⟨rfl, rfl, rfl⟩
  | @finished status _ =>
    have hrunning : (s.send i c.request.jobId { status := .running } .running).containers[i]? =
        some { c with phase := .running } := by
      simp [Network.send, hc]
    rw [Machine.run_cons, Machine.run_cons, hreport, networkStep, hrunning]
    exact ⟨rfl, rfl, List.append_assoc _ _ _⟩

/-- The reports arrive at the job service. -/
theorem run_arrivals {jobId : JobId} (hsessions : t.sessions = s.sessions)
    (hsent : t.sent = s.sent ++ updates.map (Prod.mk jobId)) (receipts : List Receipt) :
    Machine.run networkStep t (arrivals s receipts) =
      { t with world := received jobId updates receipts t.world } := by
  induction receipts generalizing t with
  | nil => rfl
  | cons receipt receipts ih =>
    have hindex : t.sent[s.sent.length + receipt.report]? =
        (updates[receipt.report]?).map (Prod.mk jobId) := by
      rw [hsent, List.getElem?_append_right (Nat.le_add_right _ _), Nat.add_sub_cancel_left,
        List.getElem?_map]
    have hhead : Machine.run networkStep t [.arrive (s.sent.length + receipt.report) receipt.now
        receipt.delivery, .commit s.sessions.length] =
        { t with world := received jobId updates [receipt] t.world } := by
      cases hreport : updates[receipt.report]? with
      | some u =>
        rw [hreport] at hindex
        rw [← hsessions, run_arrive hindex]
        simp only [received, List.foldl_cons, List.foldl_nil, hreport]
      | none =>
        rw [hreport] at hindex
        -- there is no such report, and no transaction is open that it could commit
        simp only [Machine.run_cons, Machine.run_nil, networkStep, hindex, Option.map_none,
          ← hsessions, List.getElem?_eq_none le_rfl, received, List.foldl_cons, List.foldl_nil,
          hreport]
    rw [arrivals, List.flatMap_cons, Machine.run_append, hhead]
    exact ih hsessions hsent

/-- **A container is one of the network.** Whatever the commands answer, the reports of a run of
`entrypoint.sh`, as the job service reads them, are those of a container of the network that
reports nothing, or `RUNNING`, or also finishes with the exit status of `spark-submit`. Whichever
of them reach the service, in whatever order and however often, the network has the arrivals for
it. If only `spark-submit` and `curl` fail, the container finishes with its exit status. -/
theorem container_refines {environs : Environs} {payload : String → String → String}
    (hjq : JqBuilds environs payload) (paths : String → List String) {env : Environment}
    {readUpdate : String → Option JobStatusUpdate}
    (hrunning : readUpdate (runningPayload payload) = some { status := .running })
    (hfinal : ∀ status ∈ submitStatuses
        ((entrypoint paths env).execute environs startProcess).1.ran,
      readUpdate (finalPayload payload status) = some (finalUpdate status))
    {c : Container} (hc : s.containers[i]? = some c) (hphase : c.phase = .started)
    (receipts : List Receipt) :
    let run := (entrypoint paths env).execute environs startProcess
    let updates := (sentPayloads run.1.ran).filterMap readUpdate
    ∃ steps, Follows i (submitStatuses run.1.ran) updates steps ∧
      (let t := Machine.run networkStep s (steps ++ arrivals s receipts)
      t.sent = s.sent ++ updates.map (Prod.mk c.request.jobId) ∧
        t.world = received c.request.jobId updates receipts s.world) ∧
      (env "CALLBACK_URL" ≠ "" → env "JOB_ID" ≠ "" → env "ENTRYPOINT_SCRIPT" ≠ "" →
        ¬HelperFailed run.1.ran → steps = [.report i, .finish i run.2]) := by
  intro run updates
  have houtcome := outcome_entrypoint hjq paths env
  obtain ⟨steps, hfollows⟩ := houtcome.follows hrunning hfinal i
  refine ⟨steps, hfollows, ?_, fun hurl hjobId hscript hhelpers => ?_⟩
  · obtain ⟨hworld, hsessions, hsent⟩ := hfollows.run_steps hc hphase
    intro t
    have ht : t = { Machine.run networkStep s steps with
        world := received c.request.jobId updates receipts s.world } := by
      rw [← hworld, ← run_arrivals hsessions hsent receipts, ← Machine.run_append]
    rw [ht]
    exact ⟨hsent, rfl⟩
  · obtain ⟨hstatuses, hsent⟩ := houtcome.of_not_failed hjobId hscript hhelpers
    rw [hstatuses] at hfinal
    rw [hstatuses, hsent] at hfollows
    exact hfollows.eq_of_reports hurl hrunning (hfinal _ List.mem_cons_self)

end Refinement

/-- The answers of a run are those of the environment. -/
theorem answered_entrypoint (environs : Environs) (paths : String → List String)
    (env : Environment) :
    ((entrypoint paths env).execute environs startProcess).1.Answered environs := by
  have hstart : startProcess.Answered environs := fun c hc => absurd hc List.not_mem_nil
  have heval : ((entrypoint paths env).eval environs false startProcess).1.Answered environs :=
    Script.answered_eval environs false (entrypoint paths env) hstart
  rw [Script.execute]
  split <;> next heq => simpa [heq] using heval

private theorem answered_of_mem_submitStatuses {environs : Environs} (paths : String → List String)
    (env : Environment) {status : ℕ} (h : status ∈ submitStatuses
      ((entrypoint paths env).execute environs startProcess).1.ran) :
    ∃ before words, words.head? = some "/opt/spark/bin/spark-submit" ∧
      (environs before words).status = status := by
  obtain ⟨c, hc, hstatus⟩ := List.mem_filterMap.mp h
  obtain ⟨before, hanswer⟩ := answered_entrypoint environs paths env c hc
  rw [submitStatus] at hstatus
  split at hstatus
  · next hhead => exact ⟨before, c.words, hhead, hanswer ▸ Option.some.inj hstatus⟩
  · cases hstatus

/-- The job fails with 3. The job service does not answer the first call and answers the others. -/
def flakyEnvirons : Environs := fun ran words =>
  match words with
  | "curl" :: _ => if sentPayloads ran = [] then { status := 7 } else {}
  | _ => failingEnvirons ran words

/-- The job service reads the reports of the failing job. -/
def readFailing (body : String) : Option JobStatusUpdate :=
  if body = reportJson "RUNNING" "null" then some { status := .running }
  else if body = reportJson "FAILED" "3" then some (finalUpdate 3)
  else none

/-- A container that has just been started. -/
def startedContainer : Container where
  request := {
    jobId := "job-1", retryCount := 0, entrypointScript := "s3://scripts/etl.py", arguments := ""
    sparkConfig := [], startedBy := "dhp-orchestrator/job-1" }
  arn := ⟨"arn:aws:ecs:us-east-1:task/spark/one", by decide⟩

/-- A queued job and its container. -/
def startedNetwork : Network Unit where
  world := (createJob World.empty "job-1" 0 .delivered sampleRequest).1
  drawn := ["job-1"]
  containers := [startedContainer]

/-- Only `spark-submit` and `curl` fail. -/
theorem helpers_of_flakyEnvirons : ¬HelperFailed ((entrypoint (fun _ => [])
    localEnvironment).execute flakyEnvirons startProcess).1.ran := by
  rintro ⟨c, hc, hcurl, hsubmit, hstatus⟩
  obtain ⟨before, hanswer⟩ := answered_entrypoint flakyEnvirons (fun _ => []) localEnvironment c hc
  rw [hanswer] at hstatus
  unfold flakyEnvirons at hstatus
  split at hstatus
  · next heq => exact hcurl (heq ▸ rfl)
  · unfold failingEnvirons at hstatus
    split at hstatus
    · exact hstatus rfl
    · next heq => exact hsubmit (heq ▸ rfl)
    · next heq => exact hcurl (heq ▸ rfl)
    · exact hstatus rfl

/-- The first report is lost, and the second one has the job retried. -/
theorem container_refines_running_lost :
    ∃ steps, Follows 0 [3] [{ status := .running }, finalUpdate 3] steps ∧
      let t := Machine.run networkStep startedNetwork
        (steps ++ arrivals startedNetwork [⟨1, 10, .delivered⟩])
      t.sent = [("job-1", { status := .running }), ("job-1", finalUpdate 3)] ∧
        t.world.storedStatus "job-1" = some .queued ∧ t.world.jobTopic.length = 2 := by
  have hstatuses : ∀ status ∈ submitStatuses ((entrypoint (fun _ => []) localEnvironment).execute
      flakyEnvirons startProcess).1.ran, status = 3 := by
    intro status h
    obtain ⟨before, words, hhead, hanswer⟩ := answered_of_mem_submitStatuses _ _ h
    obtain ⟨rest, rfl⟩ := List.head?_eq_some_iff.mp hhead
    exact hanswer.symm
  have hjq : JqBuilds flakyEnvirons reportJson := fun _ _ _ _ => rfl
  have hrunning : readFailing (runningPayload reportJson) = some { status := .running } := by
    decide
  have hstarted : startedNetwork.containers[0]? = some startedContainer := rfl
  obtain ⟨steps, hfollows, ⟨hsent, hworld⟩, hsteps⟩ := container_refines hjq (fun _ => []) hrunning
    (fun status h => by
      rw [hstatuses status h]
      decide) hstarted rfl [⟨1, 10, .delivered⟩]
  have hfinished := hsteps (by decide) (by decide) (by decide) helpers_of_flakyEnvirons
  generalize (sentPayloads _).filterMap readFailing = updates at hfollows hsent hworld
  cases hfollows with
  | nothing => cases hfinished
  | running => cases hfinished
  | @finished status hstatus =>
    obtain rfl := hstatuses status hstatus
    refine ⟨_, .finished List.mem_cons_self, hsent, ?_, ?_⟩
    · rw [hworld]
      decide
    · rw [hworld]
      decide

end DataHarbour.System
