import Mathlib.Data.List.Nodup
import Mathlib.Logic.Function.Iterate
import DataHarbour.Machine.Runs

/-!
# Unlocked read-modify-write transactions

Any number of transactions work on one row under READ COMMITTED. Each reads the row
without a lock, sends a message that depends on what it read, updates the row from its
snapshot, and commits; only the update takes the row lock, and it sets only the columns
that the transaction changed. The messages and the row behave as if the transactions ran
one after another exactly when none of them reads the row while a transaction that will
send a message is between its own read and its commit.
-/

namespace Machine

variable {τ ρ ε κ β : Type*} [DecidableEq τ]

/-- What a transaction does with the row it has read. -/
structure Transaction (ρ ε : Type*) where
  /-- The message it sends after the read and before the write, if any. -/
  sends : ρ → Option ε
  /-- Its update: the snapshot it read, then the row version that the update finds. -/
  writes : ρ → ρ → ρ

/-- How far a transaction has come, with the snapshot it works on. -/
inductive Phase (ρ : Type*) where
  | idle
  | read (snapshot : ρ)
  | sent (snapshot : ρ)
  | written (snapshot : ρ)
  | committed

/-- The snapshot of a transaction between its read and its commit. -/
def Phase.snapshot? : Phase ρ → Option ρ
  | .read s | .sent s | .written s => some s
  | _ => none

/-- The committed row, the messages sent so far with their senders, the phase of every
transaction, and the holder of the row lock. -/
structure RowState (τ ρ ε : Type*) where
  row : ρ
  log : List (τ × ε)
  phase : τ → Phase ρ
  lock : Option τ

/-- No transaction has begun. -/
def RowState.initial (row : ρ) : RowState τ ρ ε := ⟨row, [], fun _ => .idle, none⟩

/-- One step of one transaction. -/
inductive RowAction (τ : Type*) where
  | read (t : τ)
  | send (t : τ)
  | write (t : τ)
  | commit (t : τ)

/-- The state with one transaction moved to a new phase. -/
def RowState.enter (s : RowState τ ρ ε) (t : τ) (p : Phase ρ) : RowState τ ρ ε :=
  { s with phase := Function.update s.phase t p }

/-- Take one step; a step that is not the transaction's next one changes nothing. -/
def rowStep (txs : τ → Transaction ρ ε) (s : RowState τ ρ ε) : RowAction τ → RowState τ ρ ε
  | .read t =>
    match s.phase t with
    | .idle => s.enter t (.read s.row)
    | _ => s
  | .send t =>
    match s.phase t with
    | .read snapshot =>
      { s.enter t (.sent snapshot) with
        log := s.log ++ (((txs t).sends snapshot).map (Prod.mk t)).toList }
    | _ => s
  | .write t =>
    match s.phase t, s.lock with
    | .sent snapshot, none => { s.enter t (.written snapshot) with lock := some t }
    | _, _ => s
  | .commit t =>
    match s.phase t with
    | .written snapshot =>
      { s.enter t .committed with
        row := (txs t).writes snapshot s.row
        lock := none }
    | _ => s

/-- Every transaction that has begun has committed. -/
def RowState.Complete (s : RowState τ ρ ε) : Prop :=
  ∀ t, s.phase t = .idle ∨ s.phase t = .committed

/-- The part `π` of the row decides whether a transaction sends a message and which label
the message carries; a sender moves that part to `next`, any other leaves it alone. -/
structure Tracks (txs : τ → Transaction ρ ε) (π : ρ → κ) (active : κ → Prop) (next : κ → κ)
    (label : κ → β) (tag : ε → β) : Prop where
  sends_of_active : ∀ t r, active (π r) → ∃ e, (txs t).sends r = some e ∧ tag e = label (π r)
  sends_of_quiet : ∀ t r, ¬active (π r) → (txs t).sends r = none
  writes_of_active : ∀ t r r', active (π r) → π r' = π r → π ((txs t).writes r r') = next (π r)
  writes_of_quiet : ∀ t r r', ¬active (π r) → π ((txs t).writes r r') = π r'

/-- A transaction that sends a message is between its read and its commit. -/
def RowState.OpenSender (π : ρ → κ) (active : κ → Prop) (s : RowState τ ρ ε) (t : τ) : Prop :=
  ∃ r, (s.phase t).snapshot? = some r ∧ active (π r)

/-- No transaction reads the row while a sender is open. -/
def NoOverlap (π : ρ → κ) (active : κ → Prop) (s : RowState τ ρ ε) : RowAction τ → Prop
  | .read t => s.phase t = .idle → ∀ t', ¬s.OpenSender π active t'
  | _ => True

/-- The labels of the messages that a serial execution from `k` sends in `n` steps. -/
def serialLabels (next : κ → κ) (label : κ → β) (k : κ) (n : ℕ) : List β :=
  (List.range n).map fun i => label (next^[i] k)

/-- The messages are those of `n` serial steps from `k`, every one of them by a sender. -/
structure SerialLog (active : κ → Prop) (next : κ → κ) (label : κ → β) (tag : ε → β) (k : κ)
    (log : List (τ × ε)) (n : ℕ) : Prop where
  labels : log.map (fun m => tag m.2) = serialLabels next label k n
  active : ∀ i < n, active (next^[i] k)

/-- The tracked part of the row is behind the log by the message of the open sender, if
that message is out; at most one sender is open, and it has read the current value. -/
def SerialState (π : ρ → κ) (active : κ → Prop) (next : κ → κ) (label : κ → β) (tag : ε → β)
    (k : κ) (s : RowState τ ρ ε) : Prop :=
  ((∀ t, ¬s.OpenSender π active t) ∧
    ∃ n, SerialLog active next label tag k s.log n ∧ π s.row = next^[n] k) ∨
  (∃ t r n, (∀ t', s.OpenSender π active t' → t' = t) ∧ active (π r) ∧ π r = π s.row ∧
    π s.row = next^[n] k ∧
    ((s.phase t = .read r ∧ SerialLog active next label tag k s.log n) ∨
      ((s.phase t = .sent r ∨ s.phase t = .written r) ∧
        SerialLog active next label tag k s.log (n + 1))))

section Steps

variable {txs : τ → Transaction ρ ε} {π : ρ → κ} {active : κ → Prop} {next : κ → κ}
  {label : κ → β} {tag : ε → β} {k : κ}

variable (txs) in
/-- Everything a step can do: nothing, or the next step of one transaction. -/
inductive RowTransition (s : RowState τ ρ ε) : RowAction τ → RowState τ ρ ε → Prop
  | idle (a : RowAction τ) : RowTransition s a s
  | read (t : τ) (hphase : s.phase t = .idle) :
    RowTransition s (.read t) (s.enter t (.read s.row))
  | send (t : τ) (r : ρ) (hphase : s.phase t = .read r) :
    RowTransition s (.send t)
      { s.enter t (.sent r) with
        log := s.log ++ (((txs t).sends r).map (Prod.mk t)).toList }
  | write (t : τ) (r : ρ) (hphase : s.phase t = .sent r) :
    RowTransition s (.write t) { s.enter t (.written r) with lock := some t }
  | commit (t : τ) (r : ρ) (hphase : s.phase t = .written r) :
    RowTransition s (.commit t)
      { s.enter t .committed with row := (txs t).writes r s.row, lock := none }

variable (txs) in
private theorem rowTransition (s : RowState τ ρ ε) (a : RowAction τ) :
    RowTransition txs s a (rowStep txs s a) := by
  cases a with
  | read t =>
    simp only [rowStep]
    split
    · next hphase => exact .read t hphase
    · exact .idle _
  | send t =>
    simp only [rowStep]
    split
    · next r hphase => exact .send t r hphase
    · exact .idle _
  | write t =>
    simp only [rowStep]
    split
    · next r hphase hlock => exact .write t r hphase
    · exact .idle _
  | commit t =>
    simp only [rowStep]
    split
    · next r hphase => exact .commit t r hphase
    · exact .idle _

omit [DecidableEq τ] in
/-- A serial log is extended by the next active transition. -/
theorem SerialLog.snoc {log : List (τ × ε)} {n : ℕ}
    (h : SerialLog active next label tag k log n) {t : τ} {e : ε}
    (hactive : active (next^[n] k)) (htag : tag e = label (next^[n] k)) :
    SerialLog active next label tag k (log ++ [(t, e)]) (n + 1) := by
  constructor
  · rw [List.map_append, h.labels]
    simp [serialLabels, List.range_succ, htag]
  · intro i hi
    rcases Nat.lt_succ_iff_lt_or_eq.mp hi with hlt | rfl
    · exact h.active i hlt
    · exact hactive

/-- The open senders after one transaction has changed its phase. -/
theorem openSender_enter_iff {s : RowState τ ρ ε} {t t' : τ} {p : Phase ρ} :
    (s.enter t p).OpenSender π active t' ↔
      if t' = t then ∃ r, p.snapshot? = some r ∧ active (π r) else s.OpenSender π active t' := by
  unfold RowState.OpenSender RowState.enter
  by_cases h : t' = t
  · subst h
    simp
  · simp [h]

/-- A step that keeps the row, the log and every snapshot keeps the set of open senders. -/
theorem openSender_enter_of_same {s : RowState τ ρ ε} {t t' : τ} {p : Phase ρ}
    (h : p.snapshot? = (s.phase t).snapshot?) :
    (s.enter t p).OpenSender π active t' ↔ s.OpenSender π active t' := by
  rw [openSender_enter_iff]
  split
  · rename_i heq
    subst heq
    rw [h]
    rfl
  · exact Iff.rfl

/-- Reading with no sender open: the reader is the only one that may now be open. -/
theorem SerialState.read {s : RowState τ ρ ε} {t : τ}
    (hs : SerialState π active next label tag k s)
    (hfree : ∀ t', ¬s.OpenSender π active t') :
    SerialState π active next label tag k (s.enter t (.read s.row)) := by
  rcases hs with ⟨-, n, hlog, hrow⟩ | ⟨t', r, n, -, hactive, -, -, hphase⟩
  · by_cases hactive : active (π s.row)
    · refine Or.inr ⟨t, s.row, n, fun t' ht' => ?_, hactive, rfl, hrow, Or.inl ⟨?_, hlog⟩⟩
      · rw [openSender_enter_iff] at ht'
        by_contra hne
        rw [if_neg hne] at ht'
        exact hfree t' ht'
      · simp [RowState.enter]
    · refine Or.inl ⟨fun t' ht' => ?_, n, hlog, hrow⟩
      rw [openSender_enter_iff] at ht'
      split at ht'
      · obtain ⟨r, hr, hr'⟩ := ht'
        obtain rfl : s.row = r := by simpa [Phase.snapshot?] using hr
        exact hactive hr'
      · exact hfree t' ht'
  · -- a sender that is open contradicts the hypothesis
    refine absurd ⟨r, ?_, hactive⟩ (hfree t')
    rcases hphase with ⟨h, -⟩ | ⟨h | h, -⟩ <;> rw [h] <;> rfl

/-- Sending extends the serial log if the transaction is a sender, and changes nothing
that matters otherwise. -/
theorem SerialState.send (htracks : Tracks txs π active next label tag) {s : RowState τ ρ ε}
    {t : τ} {r : ρ} (hs : SerialState π active next label tag k s) (hphase : s.phase t = .read r) :
    SerialState π active next label tag k
      { s.enter t (.sent r) with
        log := s.log ++ (((txs t).sends r).map (Prod.mk t)).toList } := by
  have hopen : ∀ t', (s.enter t (.sent r)).OpenSender π active t' ↔ s.OpenSender π active t' :=
    fun t' => openSender_enter_of_same (by rw [hphase]; rfl)
  by_cases hactive : active (π r)
  · obtain ⟨e, hsends, htag⟩ := htracks.sends_of_active t r hactive
    have hself : s.OpenSender π active t := ⟨r, by rw [hphase]; rfl, hactive⟩
    simp only [hsends, Option.map_some, Option.toList_some]
    rcases hs with ⟨hfree, -⟩ | ⟨t₀, r₀, n, honly, -, hsame, hrow, hlog⟩
    · exact absurd hself (hfree t)
    · obtain rfl : t = t₀ := honly t hself
      rcases hlog with ⟨hread, hlog⟩ | ⟨hsent | hwritten, -⟩
      · obtain rfl : r = r₀ := by simpa [hphase] using hread
        refine Or.inr ⟨t, r, n, fun t' ht' => honly t' ((hopen t').mp ht'), hactive, hsame, hrow,
          Or.inr ⟨Or.inl ?_, ?_⟩⟩
        · simp [RowState.enter]
        · exact hlog.snoc (by rw [← hrow, ← hsame]; exact hactive) (by rw [htag, hsame, hrow])
      · simp [hphase] at hsent
      · simp [hphase] at hwritten
  · simp only [htracks.sends_of_quiet t r hactive, Option.map_none, Option.toList_none,
      List.append_nil]
    rcases hs with ⟨hfree, hlog⟩ | ⟨t₀, r₀, n, honly, hactive₀, hsame, hrow, hlog⟩
    · exact Or.inl ⟨fun t' ht' => hfree t' ((hopen t').mp ht'), hlog⟩
    · have hne : t₀ ≠ t := by
        rintro rfl
        rcases hlog with ⟨hread, -⟩ | ⟨hsent | hwritten, -⟩
        · obtain rfl : r = r₀ := by simpa [hphase] using hread
          exact hactive hactive₀
        · simp [hphase] at hsent
        · simp [hphase] at hwritten
      refine Or.inr ⟨t₀, r₀, n, fun t' ht' => honly t' ((hopen t').mp ht'), hactive₀, hsame,
        hrow, ?_⟩
      simpa [RowState.enter, Function.update_of_ne hne] using hlog

/-- Writing moves no snapshot and sends nothing. -/
theorem SerialState.write {s : RowState τ ρ ε} {t : τ} {r : ρ}
    (hs : SerialState π active next label tag k s) (hphase : s.phase t = .sent r) :
    SerialState π active next label tag k { s.enter t (.written r) with lock := some t } := by
  have hopen : ∀ t', (s.enter t (.written r)).OpenSender π active t' ↔
      s.OpenSender π active t' :=
    fun t' => openSender_enter_of_same (by rw [hphase]; rfl)
  rcases hs with ⟨hfree, hlog⟩ | ⟨t₀, r₀, n, honly, hactive, hsame, hrow, hlog⟩
  · exact Or.inl ⟨fun t' ht' => hfree t' ((hopen t').mp ht'), hlog⟩
  · refine Or.inr ⟨t₀, r₀, n, fun t' ht' => honly t' ((hopen t').mp ht'), hactive, hsame, hrow, ?_⟩
    by_cases hne : t₀ = t
    · subst hne
      rcases hlog with ⟨hread, -⟩ | ⟨hsent | hwritten, hlog⟩
      · simp [hphase] at hread
      · obtain rfl : r = r₀ := by simpa [hphase] using hsent
        exact Or.inr ⟨Or.inr (by simp [RowState.enter]), hlog⟩
      · simp [hphase] at hwritten
    · simpa [RowState.enter, Function.update_of_ne hne] using hlog

/-- Committing closes the transaction; a sender's commit brings the row level with the log. -/
theorem SerialState.commit (htracks : Tracks txs π active next label tag)
    {s : RowState τ ρ ε} {t : τ} {r : ρ} (hs : SerialState π active next label tag k s)
    (hphase : s.phase t = .written r) :
    SerialState π active next label tag k
      { s.enter t .committed with row := (txs t).writes r s.row, lock := none } := by
  have hopen : ∀ t', (s.enter t .committed).OpenSender π active t' →
      t' ≠ t ∧ s.OpenSender π active t' := by
    intro t' ht'
    rw [openSender_enter_iff] at ht'
    split at ht'
    · obtain ⟨_, hnone, -⟩ := ht'
      cases hnone
    · rename_i hne
      exact ⟨hne, ht'⟩
  rcases hs with ⟨hfree, n, hlog, hrow⟩ | ⟨t₀, r₀, n, honly, hactive, hsame, hrow, hlog⟩
  · have hquiet : ¬active (π r) := fun h => hfree t ⟨r, by rw [hphase]; rfl, h⟩
    exact Or.inl ⟨fun t' ht' => hfree t' (hopen t' ht').2, n, hlog,
      (htracks.writes_of_quiet t r s.row hquiet).trans hrow⟩
  · by_cases hne : t₀ = t
    · subst hne
      rcases hlog with ⟨hread, -⟩ | ⟨hsent | hwritten, hlog⟩
      · simp [hphase] at hread
      · simp [hphase] at hsent
      · obtain rfl : r = r₀ := by simpa [hphase] using hwritten
        refine Or.inl ⟨fun t' ht' => ?_, n + 1, hlog, ?_⟩
        · obtain ⟨hother, hold⟩ := hopen t' ht'
          exact hother (honly t' hold)
        · rw [Function.iterate_succ_apply', ← hrow, ← hsame]
          exact htracks.writes_of_active t₀ r s.row hactive hsame.symm
    · have hquiet : ¬active (π r) := fun h =>
        hne (honly t ⟨r, by rw [hphase]; rfl, h⟩).symm
      have hkeep := htracks.writes_of_quiet t r s.row hquiet
      refine Or.inr ⟨t₀, r₀, n, fun t' ht' => honly t' (hopen t' ht').2, hactive,
        hsame.trans hkeep.symm, hkeep.trans hrow, ?_⟩
      simpa [RowState.enter, Function.update_of_ne hne] using hlog

/-- A step without overlap keeps the serial state. -/
theorem SerialState.step (htracks : Tracks txs π active next label tag) {s : RowState τ ρ ε}
    {a : RowAction τ} (hs : SerialState π active next label tag k s)
    (ha : NoOverlap π active s a) :
    SerialState π active next label tag k (rowStep txs s a) := by
  have hstep := rowTransition txs s a
  generalize rowStep txs s a = s' at hstep
  cases hstep with
  | idle => exact hs
  | read t hphase => exact hs.read (ha hphase)
  | send t r hphase => exact hs.send htracks hphase
  | write t r hphase => exact hs.write hphase
  | commit t r hphase => exact hs.commit htracks hphase

omit [DecidableEq τ] in
/-- An untouched row has the empty serial log. -/
theorem serialState_initial (row : ρ) :
    SerialState π active next label tag (π row) (RowState.initial row : RowState τ ρ ε) := by
  refine Or.inl ⟨?_, 0, ⟨rfl, fun i hi => absurd hi (Nat.not_lt_zero i)⟩, rfl⟩
  rintro t ⟨r, hr, -⟩
  cases hr

/-- **Without overlap the messages are serial**: the log of every such run is the log of
some number of transactions executed one after another. -/
theorem serialLog_of_noOverlap (htracks : Tracks txs π active next label tag) (row : ρ)
    {actions : List (RowAction τ)}
    (hactions : Along (rowStep txs) (NoOverlap π active) (RowState.initial row) actions) :
    ∃ n, SerialLog active next label tag (π row)
      (run (rowStep txs) (RowState.initial row) actions).log n := by
  have hserial := hactions.preserves (fun s a hs ha => SerialState.step htracks hs ha)
    (serialState_initial row)
  rcases hserial with ⟨-, n, hlog, -⟩ | ⟨t, r, n, -, -, -, -, ⟨-, hlog⟩ | ⟨-, hlog⟩⟩
  · exact ⟨n, hlog⟩
  · exact ⟨n, hlog⟩
  · exact ⟨n + 1, hlog⟩

/-! ## Overlap repeats a label -/

/-- A transaction's message with the given label is in the log. -/
def Logged (tag : ε → β) (s : RowState τ ρ ε) (t : τ) (l : β) : Prop :=
  ∃ e, (t, e) ∈ s.log ∧ tag e = l

/-- A transaction has sent a message with the label, or has read a row that makes it send one. -/
def Promised (π : ρ → κ) (active : κ → Prop) (label : κ → β) (tag : ε → β)
    (s : RowState τ ρ ε) (t : τ) (l : β) : Prop :=
  (∃ r, s.phase t = .read r ∧ active (π r) ∧ label (π r) = l) ∨ Logged tag s t l

/-- Every sender that is past its send has its message in the log. -/
def LogsSenders (π : ρ → κ) (active : κ → Prop) (label : κ → β) (tag : ε → β)
    (s : RowState τ ρ ε) : Prop :=
  ∀ t r, s.phase t = .sent r ∨ s.phase t = .written r → active (π r) →
    Logged tag s t (label (π r))

variable (txs) in
/-- What a step does to one transaction's phase: nothing, or its next phase. -/
theorem phase_rowStep (s : RowState τ ρ ε) (a : RowAction τ) (t : τ) :
    (rowStep txs s a).phase t = s.phase t ∨
      (s.phase t = .idle ∧ (rowStep txs s a).phase t = .read s.row) ∨
      (∃ r, s.phase t = .read r ∧ (rowStep txs s a).phase t = .sent r ∧
        (rowStep txs s a).log = s.log ++ (((txs t).sends r).map (Prod.mk t)).toList) ∨
      (∃ r, s.phase t = .sent r ∧ (rowStep txs s a).phase t = .written r) ∨
      (∃ r, s.phase t = .written r ∧ (rowStep txs s a).phase t = .committed) := by
  have hstep := rowTransition txs s a
  generalize rowStep txs s a = s' at hstep
  cases hstep with
  | idle => exact Or.inl rfl
  | read t' hphase =>
    by_cases hne : t = t'
    · subst hne
      exact Or.inr (Or.inl ⟨hphase, Function.update_self _ _ _⟩)
    · exact Or.inl (Function.update_of_ne hne _ _)
  | send t' r hphase =>
    by_cases hne : t = t'
    · subst hne
      exact Or.inr (Or.inr (Or.inl ⟨r, hphase, Function.update_self _ _ _, rfl⟩))
    · exact Or.inl (Function.update_of_ne hne _ _)
  | write t' r hphase =>
    by_cases hne : t = t'
    · subst hne
      exact Or.inr (Or.inr (Or.inr (Or.inl ⟨r, hphase, Function.update_self _ _ _⟩)))
    · exact Or.inl (Function.update_of_ne hne _ _)
  | commit t' r hphase =>
    by_cases hne : t = t'
    · subst hne
      exact Or.inr (Or.inr (Or.inr (Or.inr ⟨r, hphase, Function.update_self _ _ _⟩)))
    · exact Or.inl (Function.update_of_ne hne _ _)

/-- Messages are never taken back. -/
theorem mem_log_rowStep {s : RowState τ ρ ε} (a : RowAction τ) {m : τ × ε} (hm : m ∈ s.log) :
    m ∈ (rowStep txs s a).log := by
  have hstep := rowTransition txs s a
  generalize rowStep txs s a = s' at hstep
  cases hstep with
  | send => exact List.mem_append_left _ hm
  | idle | read | write | commit => exact hm

/-- What every message satisfies, every message in the log satisfies. -/
theorem forall_log_invariant {p : ε → Prop} (hp : ∀ t r e, (txs t).sends r = some e → p e) :
    Invariant (rowStep txs) fun s => ∀ m ∈ s.log, p m.2 := by
  intro s a hs
  have hstep := rowTransition txs s a
  generalize rowStep txs s a = s' at hstep
  cases hstep with
  | send t r hphase =>
    intro m hm
    rcases List.mem_append.mp hm with hold | hnew
    · exact hs m hold
    · simp only [Option.mem_toList, Option.map_eq_some_iff] at hnew
      obtain ⟨e, he, rfl⟩ := hnew
      exact hp t r e he
  | idle | read | write | commit => exact hs

/-- What is logged stays logged. -/
theorem Logged.step {s : RowState τ ρ ε} {t : τ} {l : β} (h : Logged tag s t l)
    (a : RowAction τ) : Logged tag (rowStep txs s a) t l := by
  obtain ⟨e, he, htag⟩ := h
  exact ⟨e, mem_log_rowStep a he, htag⟩

omit [DecidableEq τ] in
/-- The step that takes a sender past its send logs its message. -/
theorem logged_of_sent (htracks : Tracks txs π active next label tag) {s s' : RowState τ ρ ε}
    {t : τ} {r : ρ} (hactive : active (π r))
    (hlog : s'.log = s.log ++ (((txs t).sends r).map (Prod.mk t)).toList) :
    Logged tag s' t (label (π r)) := by
  obtain ⟨e, hsends, htag⟩ := htracks.sends_of_active t r hactive
  exact ⟨e, by simp [hlog, hsends], htag⟩

private theorem logsSenders_invariant (htracks : Tracks txs π active next label tag) :
    Invariant (rowStep txs) (LogsSenders π active label tag) := by
  intro s a hs t r hphase' hactive
  rcases phase_rowStep txs s a t with
    hsame | ⟨-, hread⟩ | ⟨r', -, hsent, hlog⟩ | ⟨r', hold, hnew⟩ | ⟨-, -, hcommitted⟩
  · rw [hsame] at hphase'
    exact (hs t r hphase' hactive).step a
  · simp [hread] at hphase'
  · obtain rfl : r' = r := by simpa [hsent] using hphase'
    exact logged_of_sent htracks hactive hlog
  · obtain rfl : r' = r := by simpa [hnew] using hphase'
    exact (hs t r' (Or.inl hold) hactive).step a
  · simp [hcommitted] at hphase'

private theorem promised_invariant (htracks : Tracks txs π active next label tag) (t : τ) (l : β) :
    Invariant (rowStep txs) (Promised π active label tag · t l) := by
  rintro s a (⟨r, hphase, hactive, rfl⟩ | hlogged)
  · rcases phase_rowStep txs s a t with
      hsame | ⟨hidle, -⟩ | ⟨r', hread, hsent, hlog⟩ | ⟨_, hold, -⟩ | ⟨_, hold, -⟩
    · exact Or.inl ⟨r, hsame.trans hphase, hactive, rfl⟩
    · simp [hphase] at hidle
    · obtain rfl : r = r' := by simpa [hphase] using hread
      exact Or.inr (logged_of_sent htracks hactive hlog)
    · simp [hphase] at hold
    · simp [hphase] at hold
  · exact Or.inr (hlogged.step a)

omit [DecidableEq τ] in
/-- An open sender has promised the label of the value it read. -/
theorem promised_of_openSender {s : RowState τ ρ ε} (hs : LogsSenders π active label tag s)
    {t : τ} {r : ρ} (hopen : (s.phase t).snapshot? = some r) (hactive : active (π r)) :
    Promised π active label tag s t (label (π r)) := by
  cases hphase : s.phase t with
  | idle => simp [hphase, Phase.snapshot?] at hopen
  | read r' =>
    obtain rfl : r' = r := by simpa [hphase, Phase.snapshot?] using hopen
    exact Or.inl ⟨r', hphase, hactive, rfl⟩
  | sent r' =>
    obtain rfl : r' = r := by simpa [hphase, Phase.snapshot?] using hopen
    exact Or.inr (hs t r' (Or.inl hphase) hactive)
  | written r' =>
    obtain rfl : r' = r := by simpa [hphase, Phase.snapshot?] using hopen
    exact Or.inr (hs t r' (Or.inr hphase) hactive)
  | committed => simp [hphase, Phase.snapshot?] at hopen

omit [DecidableEq τ] in
/-- Once everything has committed, promises are kept. -/
theorem logged_of_complete {s : RowState τ ρ ε} {t : τ} {l : β} (hcomplete : s.Complete)
    (h : Promised π active label tag s t l) : Logged tag s t l := by
  rcases h with ⟨r, hphase, -, -⟩ | h
  · rcases hcomplete t with hidle | hcommitted
    · simp [hphase] at hidle
    · simp [hphase] at hcommitted
  · exact h

/-- **A complete run whose labels are distinct has no overlap**: a read that overlaps an
open sender makes two transactions promise one label. -/
theorem noOverlap_of_nodup (htracks : Tracks txs π active next label tag)
    {s : RowState τ ρ ε} (hserial : SerialState π active next label tag k s)
    (hlogs : LogsSenders π active label tag s) {actions : List (RowAction τ)}
    (hcomplete : (run (rowStep txs) s actions).Complete)
    (hnodup : ((run (rowStep txs) s actions).log.map fun m => tag m.2).Nodup) :
    Along (rowStep txs) (NoOverlap π active) s actions := by
  induction actions generalizing s with
  | nil => trivial
  | cons a actions ih =>
    have hstep : NoOverlap π active s a := by
      cases a with
      | send t => trivial
      | write t => trivial
      | commit t => trivial
      | read t =>
        rintro hidle t' ⟨r', hopen', hactive'⟩
        have hne : t' ≠ t := by
          rintro rfl
          simp [hidle, Phase.snapshot?] at hopen'
        -- the open sender has read the value that is still in the row
        have hsame : π r' = π s.row := by
          rcases hserial with ⟨hfree, -⟩ | ⟨t₀, r₀, n, honly, -, hsame, -, hphase⟩
          · exact absurd ⟨r', hopen', hactive'⟩ (hfree t')
          · obtain rfl : t' = t₀ := honly t' ⟨r', hopen', hactive'⟩
            rcases hphase with ⟨h, -⟩ | ⟨h | h, -⟩ <;>
              · obtain rfl : r₀ = r' := by simpa [h, Phase.snapshot?] using hopen'
                exact hsame
        have hold : Promised π active label tag (rowStep txs s (.read t)) t' (label (π s.row)) := by
          rw [← hsame]
          exact promised_invariant htracks t' _ s _ (promised_of_openSender hlogs hopen' hactive')
        have hnew : Promised π active label tag (rowStep txs s (.read t)) t (label (π s.row)) :=
          Or.inl ⟨s.row, by simp [rowStep, hidle, RowState.enter], hsame ▸ hactive', rfl⟩
        obtain ⟨e, he, htag⟩ := logged_of_complete hcomplete
          ((promised_invariant htracks t _).run hnew actions)
        obtain ⟨e', he', htag'⟩ := logged_of_complete hcomplete
          ((promised_invariant htracks t' _).run hold actions)
        have hpair := List.inj_on_of_nodup_map hnodup he' he (htag'.trans htag.symm)
        exact hne (congrArg Prod.fst hpair)
    exact ⟨hstep, ih (hserial.step htracks hstep) (logsSenders_invariant htracks s a hlogs)
      hcomplete hnodup⟩

omit [DecidableEq τ] in
/-- Nobody has written to an untouched row. -/
theorem logsSenders_initial (row : ρ) :
    LogsSenders π active label tag (RowState.initial row : RowState τ ρ ε) := by
  rintro t r (h | h) <;> simp [RowState.initial] at h

end Steps

end Machine
