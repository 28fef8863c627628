import Mathlib.Data.List.Basic
import Mathlib.Logic.Function.Basic

/-!
# Scripts under `set -e`

A core of the shell's command language: simple commands, pipelines, assignments, command
substitution, `&&`, `||`, `if`, functions and `exit`. What an external command answers is up to
the environment. Under `set -e` a command that fails ends the script, except where its status is
tested: left of `&&` and `||`, and in the condition of an `if`.
-/

namespace Shell

/-- What an external command leaves: its exit status, and its output as `$(...)` gives it. -/
structure Answer where
  status : ℕ := 0
  output : String := ""

/-- A command line that was run, and the answer. -/
structure Command where
  words : List String
  answer : Answer

/-- A running script. -/
structure Process where
  /-- The variables that the script assigns. -/
  vars : String → String := fun _ => ""
  /-- `set -e`. -/
  errexit : Bool := false
  /-- `set -o pipefail`. -/
  pipefail : Bool := false
  /-- `PIPESTATUS`. -/
  pipestatus : List ℕ := []
  /-- The commands run so far. -/
  ran : List Command := []

/-- How a script goes on after a command. -/
inductive Flow where
  /-- With the next command; the last one had this status. -/
  | next (status : ℕ)
  /-- The function returns. -/
  | returned (status : ℕ)
  /-- The script ends. -/
  | exited (status : ℕ)
  deriving DecidableEq

/-- The words of a command line, after expansion. -/
abbrev Words := Process → List String

/-- A script. -/
inductive Script where
  /-- A simple command. -/
  | run (words : Words)
  /-- `first | ...`. -/
  | pipeline (stages : List Words)
  /-- `name=value`. -/
  | assign (name : String) (value : Process → String)
  /-- `name=$(...)`. -/
  | capture (name : String) (words : Words)
  /-- `[ ... ]`. -/
  | test (holds : Process → Bool)
  /-- `: "${name:?...}"`: the script ends if the variable is empty. -/
  | require (value : Process → String)
  /-- `set -e` and `set +e`. -/
  | setErrexit (on : Bool)
  | seq (first second : Script)
  /-- `first && second`. -/
  | both (first second : Script)
  /-- `first || second`. -/
  | either (first second : Script)
  | cond (condition yes no : Script)
  /-- The call of a function with this body. -/
  | call (body : Script)
  | return (status : ℕ)
  | exit (status : Process → ℕ)

/-- The environment: what a command answers, given the commands that were run before it. -/
abbrev Environs := List Command → List String → Answer

/-- A command is run and recorded. -/
def Process.record (p : Process) (environs : Environs) (words : List String) : Process :=
  { p with ran := p.ran ++ [⟨words, environs p.ran words⟩] }

/-- The stages of a pipeline are run; the statuses in their order. -/
def Process.recordAll (environs : Environs) : List (List String) → Process → Process × List ℕ
  | [], p => (p, [])
  | words :: rest, p =>
    let after := Process.recordAll environs rest (p.record environs words)
    (after.1, (environs p.ran words).status :: after.2)

/-- The status of a pipeline: that of the last stage, or of the last one that fails. -/
def Process.pipeStatus (p : Process) (statuses : List ℕ) : ℕ :=
  if p.pipefail then ((statuses.filter (· ≠ 0)).getLast?).getD 0 else statuses.getLast?.getD 0

/-- A status that is not tested ends the script under `set -e`, unless it is 0. -/
def Process.check (p : Process) (tested : Bool) (status : ℕ) : Flow :=
  if p.errexit && !tested && status != 0 then .exited status else .next status

/-- The state and the flow after a script. `tested` tells whether its status is tested. -/
def Script.eval (environs : Environs) (tested : Bool) : Script → Process → Process × Flow
  | run words, p =>
    let status := (environs p.ran (words p)).status
    let p' := { p.record environs (words p) with pipestatus := [status] }
    (p', p'.check tested status)
  | pipeline stages, p =>
    let (p', statuses) := Process.recordAll environs (stages.map fun words => words p) p
    let p' := { p' with pipestatus := statuses }
    (p', p'.check tested (p'.pipeStatus statuses))
  | assign name value, p => ({ p with vars := Function.update p.vars name (value p) }, .next 0)
  | capture name words, p =>
    let answer := environs p.ran (words p)
    let p' := { p.record environs (words p) with
      vars := Function.update p.vars name answer.output
      pipestatus := [answer.status] }
    (p', p'.check tested answer.status)
  | test holds, p =>
    let status := if holds p then 0 else 1
    let p' := { p with pipestatus := [status] }
    (p', p'.check tested status)
  | require value, p => if value p = "" then (p, .exited 1) else (p, .next 0)
  | setErrexit on, p => ({ p with errexit := on }, .next 0)
  | seq first second, p =>
    match first.eval environs tested p with
    | (p', .next _) => second.eval environs tested p'
    | stopped => stopped
  | both first second, p =>
    match first.eval environs true p with
    | (p', .next 0) => second.eval environs tested p'
    | stopped => stopped
  | either first second, p =>
    match first.eval environs true p with
    | (p', .next (_ + 1)) => second.eval environs tested p'
    | stopped => stopped
  | cond condition yes no, p =>
    match condition.eval environs true p with
    | (p', .next 0) => yes.eval environs tested p'
    | (p', .next _) => no.eval environs tested p'
    | stopped => stopped
  | call body, p =>
    match body.eval environs tested p with
    | (p', .next status) | (p', .returned status) => (p', p'.check tested status)
    | stopped => stopped
  | .return status, p => (p, .returned status)
  | exit status, p => (p, .exited (status p))

attribute [local simp] Script.eval

/-- The process at the end of a script, and its exit status. -/
def Script.execute (environs : Environs) (script : Script) (p : Process) : Process × ℕ :=
  match script.eval environs false p with
  | (p', .next status) | (p', .returned status) | (p', .exited status) => (p', status)

/-! ## What commands leave -/

/-- The process after some commands, with what else a command changes left open. -/
structure Process.Extends (p p' : Process) (commands : List Command) : Prop where
  errexit : p'.errexit = p.errexit
  pipefail : p'.pipefail = p.pipefail
  ran : p'.ran = p.ran ++ commands

/-- The stages of a pipeline are recorded with their statuses. -/
theorem Process.recordAll_eq (environs : Environs) (stages : List (List String)) (p : Process) :
    ∃ commands : List Command, commands.map Command.words = stages ∧
      Process.recordAll environs stages p =
        ({ p with ran := p.ran ++ commands }, commands.map fun c => c.answer.status) := by
  induction stages generalizing p with
  | nil => exact ⟨[], rfl, by simp [Process.recordAll]⟩
  | cons words stages ih =>
    obtain ⟨commands, hwords, heq⟩ := ih (p.record environs words)
    refine ⟨⟨words, environs p.ran words⟩ :: commands, by rw [List.map_cons, hwords], ?_⟩
    rw [Process.recordAll, heq]
    simp [Process.record]

/-- A pipeline fails only if one of its stages does. -/
theorem Process.exists_of_pipeStatus {p : Process} {statuses : List ℕ}
    (h : p.pipeStatus statuses ≠ 0) : ∃ status ∈ statuses, status ≠ 0 := by
  unfold pipeStatus at h
  split at h
  · cases hlast : (statuses.filter (· ≠ 0)).getLast? with
    | none =>
      rw [hlast] at h
      exact absurd rfl h
    | some status =>
      obtain ⟨hmem, hne⟩ := List.mem_filter.mp (List.mem_of_getLast? hlast)
      exact ⟨status, hmem, by simpa using hne⟩
  · cases hlast : statuses.getLast? with
    | none =>
      rw [hlast] at h
      exact absurd rfl h
    | some status =>
      rw [hlast] at h
      exact ⟨status, List.mem_of_getLast? hlast, h⟩

/-- Under `set -e` an untested status goes on exactly if it is 0. -/
theorem Process.check_of_errexit {p : Process} (h : p.errexit = true) (status : ℕ) :
    p.check false status = if status = 0 then .next 0 else .exited status := by
  by_cases hstatus : status = 0 <;> simp [check, h, hstatus]

/-- Every command was answered by the environment. -/
def Process.Answered (environs : Environs) (p : Process) : Prop :=
  ∀ c ∈ p.ran, ∃ before, c.answer = environs before c.words

/-- A recorded command leaves the answered commands answered. -/
theorem Process.Answered.record {environs : Environs} {p : Process} (h : p.Answered environs)
    (words : List String) : (p.record environs words).Answered environs := by
  intro c hc
  rcases List.mem_append.mp hc with hold | hnew
  · exact h c hold
  · obtain rfl := List.mem_singleton.mp hnew
    exact ⟨p.ran, rfl⟩

/-- So do the commands of a whole pipeline. -/
theorem Process.Answered.recordAll {environs : Environs} {p : Process} (h : p.Answered environs)
    (stages : List (List String)) :
    (Process.recordAll environs stages p).1.Answered environs := by
  induction stages generalizing p with
  | nil => exact h
  | cons words stages ih => exact ih (h.record words)

/-- A script runs no command without the environment. -/
theorem Script.answered_eval (environs : Environs) (tested : Bool) (script : Script) {p : Process}
    (h : p.Answered environs) : (script.eval environs tested p).1.Answered environs := by
  induction script generalizing tested p with
  | run words => exact h.record (words p)
  | pipeline stages => exact h.recordAll (stages.map fun words => words p)
  | assign => exact h
  | capture name words => exact h.record (words p)
  | test => exact h
  | require value =>
    rw [Script.eval]
    split <;> exact h
  | setErrexit => exact h
  | seq first second ihFirst ihSecond =>
    have hfirst := ihFirst tested h
    rw [Script.eval]
    split
    · next heq => exact ihSecond tested (by simpa [heq] using hfirst)
    · exact hfirst
  | both first second ihFirst ihSecond =>
    have hfirst := ihFirst true h
    rw [Script.eval]
    split
    · next heq => exact ihSecond tested (by simpa [heq] using hfirst)
    · exact hfirst
  | either first second ihFirst ihSecond =>
    have hfirst := ihFirst true h
    rw [Script.eval]
    split
    · next heq => exact ihSecond tested (by simpa [heq] using hfirst)
    · exact hfirst
  | cond condition yes no ihCondition ihYes ihNo =>
    have hcondition := ihCondition true h
    rw [Script.eval]
    split
    · next heq => exact ihYes tested (by simpa [heq] using hcondition)
    · next heq => exact ihNo tested (by simpa [heq] using hcondition)
    · exact hcondition
  | call body ihBody =>
    have hbody := ihBody tested h
    rw [Script.eval]
    split
    · next heq => simpa [heq] using hbody
    · next heq => simpa [heq] using hbody
    · exact hbody
  | «return» => exact h
  | exit => exact h

/-! ## Rules -/

/-- Whatever the script does from here, the state and the flow after it satisfy `Q`. -/
def Script.Ensures (environs : Environs) (tested : Bool) (script : Script) (p : Process)
    (Q : Process → Flow → Prop) : Prop :=
  Q (script.eval environs tested p).1 (script.eval environs tested p).2

/-- The commands of a script in their order. -/
def Script.block : List Script → Script
  | [] => .test fun _ => true
  | [script] => script
  | script :: rest => .seq script (Script.block rest)

namespace Script.Ensures

variable {environs : Environs} {tested : Bool} {p : Process} {Q R : Process → Flow → Prop}
  {first second condition yes no body : Script}

/-- A script that ensures more ensures less. -/
theorem mono {script : Script} (h : script.Ensures environs tested p R)
    (hQ : ∀ p' flow, R p' flow → Q p' flow) : script.Ensures environs tested p Q :=
  hQ _ _ h

/-- What the first command leaves is where the second one starts, unless the script stops. -/
theorem seq (hfirst : first.Ensures environs tested p R)
    (hsecond : ∀ p' status, R p' (.next status) → second.Ensures environs tested p' Q)
    (hreturned : ∀ p' status, R p' (.returned status) → Q p' (.returned status))
    (hexited : ∀ p' status, R p' (.exited status) → Q p' (.exited status)) :
    (Script.seq first second).Ensures environs tested p Q := by
  unfold Script.Ensures at hfirst ⊢
  rw [Script.eval]
  generalize first.eval environs tested p = result at hfirst
  obtain ⟨p', flow⟩ := result
  cases flow with
  | next status => exact hsecond p' status hfirst
  | returned status => exact hreturned p' status hfirst
  | exited status => exact hexited p' status hfirst

/-- An assignment is read by the rest of the script. -/
theorem assign_seq {name : String} {value : Process → String} {rest : Script}
    (h : rest.Ensures environs tested
      { p with vars := Function.update p.vars name (value p) } Q) :
    (Script.seq (.assign name value) rest).Ensures environs tested p Q :=
  h

/-- `set -e` and `set +e` act on the rest of the script. -/
theorem setErrexit_seq {on : Bool} {rest : Script}
    (h : rest.Ensures environs tested { p with errexit := on } Q) :
    (Script.seq (.setErrexit on) rest).Ensures environs tested p Q :=
  h

/-- A variable that is required is not empty from here on. -/
theorem require_seq {value : Process → String} {rest : Script}
    (hempty : value p = "" → Q p (.exited 1))
    (hrest : value p ≠ "" → rest.Ensures environs tested p Q) :
    (Script.seq (.require value) rest).Ensures environs tested p Q := by
  unfold Script.Ensures at hrest ⊢
  simp only [Script.eval]
  by_cases hvalue : value p = ""
  · rw [if_pos hvalue]
    exact hempty hvalue
  · rw [if_neg hvalue]
    exact hrest hvalue

/-- `[ ... ] && command`. -/
theorem test_both {holds : Process → Bool}
    (hyes : holds p = true → second.Ensures environs tested { p with pipestatus := [0] } Q)
    (hno : holds p = false → Q { p with pipestatus := [1] } (.next 1)) :
    (Script.both (.test holds) second).Ensures environs tested p Q := by
  unfold Script.Ensures at hyes ⊢
  cases hholds : holds p with
  | true => simpa [Script.eval, hholds, Process.check] using hyes hholds
  | false => simpa [Script.eval, hholds, Process.check] using hno hholds

/-- `if [ ... ]; then ... else ... fi`. -/
theorem test_cond {holds : Process → Bool}
    (hyes : holds p = true → yes.Ensures environs tested { p with pipestatus := [0] } Q)
    (hno : holds p = false → no.Ensures environs tested { p with pipestatus := [1] } Q) :
    (Script.cond (.test holds) yes no).Ensures environs tested p Q := by
  unfold Script.Ensures at hyes hno ⊢
  cases hholds : holds p with
  | true => simpa [Script.eval, hholds, Process.check] using hyes hholds
  | false => simpa [Script.eval, hholds, Process.check] using hno hholds

/-- The status of a function is tested once more where it was called. -/
theorem call (h : body.Ensures environs tested p R)
    (hnext : ∀ p' status, R p' (.next status) → Q p' (p'.check tested status))
    (hreturned : ∀ p' status, R p' (.returned status) → Q p' (p'.check tested status))
    (hexited : ∀ p' status, R p' (.exited status) → Q p' (.exited status)) :
    (Script.call body).Ensures environs tested p Q := by
  unfold Script.Ensures at h ⊢
  rw [Script.eval]
  generalize body.eval environs tested p = result at h
  obtain ⟨p', flow⟩ := result
  cases flow with
  | next status => exact hnext p' status h
  | returned status => exact hreturned p' status h
  | exited status => exact hexited p' status h

/-- Under `set -e` a command either succeeds or ends the script. -/
theorem run {words : Words} (herrexit : p.errexit = true)
    (h : ∀ answer p', p.Extends p' [⟨words p, answer⟩] → p'.vars = p.vars →
      Q p' (if answer.status = 0 then .next 0 else .exited answer.status)) :
    (Script.run words).Ensures environs false p Q := by
  unfold Script.Ensures
  simp only [Script.eval]
  rw [Process.check_of_errexit]
  · exact h (environs p.ran (words p)) _ ⟨rfl, rfl, rfl⟩ rfl
  · exact herrexit

/-- Under `set -e` and `pipefail` a pipeline either succeeds or ends the script, and then one of its
stages has failed. -/
theorem pipeline {stages : List Words} (herrexit : p.errexit = true)
    (hok : ∀ commands p', p.Extends p' commands → p'.vars = p.vars →
      commands.map Command.words = stages.map (fun words => words p) → Q p' (.next 0))
    (hfail : ∀ commands p' status, p.Extends p' commands → p'.vars = p.vars →
      commands.map Command.words = stages.map (fun words => words p) → status ≠ 0 →
        (∃ c ∈ commands, c.answer.status ≠ 0) → Q p' (.exited status)) :
    (Script.pipeline stages).Ensures environs false p Q := by
  unfold Script.Ensures
  obtain ⟨commands, hwords, heq⟩ :=
    Process.recordAll_eq environs (stages.map fun words => words p) p
  simp only [Script.eval, heq]
  rw [Process.check_of_errexit]
  · split
    · exact hok commands _ ⟨rfl, rfl, rfl⟩ rfl hwords
    · next hne =>
      obtain ⟨status, hmem, hstatus⟩ := Process.exists_of_pipeStatus hne
      obtain ⟨c, hc, rfl⟩ := List.mem_map.mp hmem
      exact hfail commands _ _ ⟨rfl, rfl, rfl⟩ rfl hwords hne ⟨c, hc, hstatus⟩
  · exact herrexit

/-- After `set +e` a pipeline leaves the statuses of its stages. -/
theorem pipeline_ignored {stages : List Words} (herrexit : p.errexit = false)
    (h : ∀ commands p' status, p.Extends p' commands → p'.vars = p.vars →
      commands.map Command.words = stages.map (fun words => words p) →
        p'.pipestatus = (commands.map fun c => c.answer.status) → Q p' (.next status)) :
    (Script.pipeline stages).Ensures environs tested p Q := by
  unfold Script.Ensures
  obtain ⟨commands, hwords, heq⟩ :=
    Process.recordAll_eq environs (stages.map fun words => words p) p
  simp only [Script.eval, heq]
  have hcheck : ∀ (p' : Process) status, p'.errexit = false →
      p'.check tested status = .next status := by
    intro p' status h
    simp [Process.check, h]
  rw [hcheck]
  · exact h commands _ _ ⟨rfl, rfl, rfl⟩ rfl hwords rfl
  · exact herrexit

/-- Under `set -e` a command substitution either gives the output or ends the script. -/
theorem capture {name : String} {words : Words} (herrexit : p.errexit = true)
    (h : ∀ p', p.Extends p' [⟨words p, environs p.ran (words p)⟩] →
      p'.vars = Function.update p.vars name (environs p.ran (words p)).output →
        Q p' (if (environs p.ran (words p)).status = 0 then .next 0
          else .exited (environs p.ran (words p)).status)) :
    (Script.capture name words).Ensures environs false p Q := by
  unfold Script.Ensures
  simp only [Script.eval]
  rw [Process.check_of_errexit]
  · exact h _ ⟨rfl, rfl, rfl⟩ rfl
  · exact herrexit

/-- A failing command left of `||` is followed by the other one. -/
theorem run_either {words words' : Words} (herrexit : p.errexit = true)
    (h : ∀ answer p', p.Extends p' [⟨words p, answer⟩] → p'.vars = p.vars → answer.status = 0 →
      Q p' (.next 0))
    (h' : ∀ answer answer' p₁ p', p.Extends p' [⟨words p, answer⟩, ⟨words' p₁, answer'⟩] →
      p'.vars = p.vars →
        Q p' (if answer'.status = 0 then .next 0 else .exited answer'.status)) :
    (Script.either (.run words) (.run words')).Ensures environs false p Q := by
  unfold Script.Ensures
  simp only [Script.eval]
  have htested : ∀ (p' : Process) status, p'.check true status = .next status := by
    intro p' status
    simp [Process.check]
  rw [htested]
  cases hstatus : (environs p.ran (words p)).status with
  | zero => exact h (environs p.ran (words p)) _ ⟨rfl, rfl, rfl⟩ rfl hstatus
  | succ n =>
    let p₁ : Process := { p.record environs (words p) with pipestatus := [n + 1] }
    simp only
    rw [Process.check_of_errexit]
    · exact h' (environs p.ran (words p)) (environs p₁.ran (words' p₁)) p₁ _
        ⟨rfl, rfl, by simp [p₁, Process.record]⟩ rfl
    · exact herrexit

end Script.Ensures

end Shell
