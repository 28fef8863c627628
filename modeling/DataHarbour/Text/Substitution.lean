import Mathlib.Data.List.Nodup
import Mathlib.Data.List.Induction

/-!
# Renaming one after another

A map of renames can be applied to a list of names at once, or entry by entry, each entry
renaming the first occurrence of its key in the list that the earlier entries left. The two
agree in every order of the entries exactly if no entry produces the key of another one, unless
that key already stands in front.
-/

namespace Text

variable {α : Type*} [DecidableEq α]

/-- All entries at once. -/
def substitute : List (α × α) → α → α
  | [], a => a
  | (k, v) :: renames, a => if k = a then v else substitute renames a

/-- One entry after another, each on the first occurrence of its key. -/
def replaceEach (renames : List (α × α)) (names : List α) : List α :=
  renames.foldl (fun names rename => names.replace rename.1 rename.2) names

private theorem replaceEach_append (first second : List (α × α)) (names : List α) :
    replaceEach (first ++ second) names = replaceEach second (replaceEach first names) :=
  List.foldl_append

/-- Renames apply one after the other. -/
@[simp] theorem replaceEach_cons (rename : α × α) (renames : List (α × α)) (names : List α) :
    replaceEach (rename :: renames) names =
      replaceEach renames (names.replace rename.1 rename.2) := rfl

/-- A name that no rename starts from stays. -/
theorem substitute_of_notMem {renames : List (α × α)} {a : α} (h : a ∉ renames.map Prod.fst) :
    substitute renames a = a := by
  induction renames with
  | nil => rfl
  | cons rename renames ih =>
    rw [List.map_cons, List.mem_cons, not_or] at h
    rw [substitute, if_neg (Ne.symm h.1), ih h.2]

private theorem substitute_of_mem {renames : List (α × α)} (hkeys : (renames.map Prod.fst).Nodup)
    {k v : α} (h : (k, v) ∈ renames) : substitute renames k = v := by
  induction renames with
  | nil => cases h
  | cons rename renames ih =>
    obtain ⟨hfresh, hrest⟩ := List.nodup_cons.mp hkeys
    rcases List.mem_cons.mp h with rfl | htail
    · rw [substitute, if_pos rfl]
    · have hne : rename.1 ≠ k := fun heq => hfresh (heq ▸ List.mem_map_of_mem htail)
      rw [substitute, if_neg hne, ih hrest htail]

/-- A value that is substituted comes from an entry. -/
theorem mem_of_substitute_ne {renames : List (α × α)} {a : α} (h : substitute renames a ≠ a) :
    (a, substitute renames a) ∈ renames := by
  induction renames with
  | nil => exact absurd rfl h
  | cons rename renames ih =>
    rw [substitute] at h ⊢
    split at h
    · next hkey =>
      rw [if_pos hkey, ← hkey]
      exact List.mem_cons_self
    · next hkey =>
      rw [if_neg hkey]
      exact List.mem_cons_of_mem rename (ih h)

private theorem substitute_append_singleton {renames : List (α × α)} {k : α}
    (hk : k ∉ renames.map Prod.fst) (v a : α) :
    substitute (renames ++ [(k, v)]) a = if k = a then v else substitute renames a := by
  induction renames with
  | nil => rfl
  | cons rename renames ih =>
    rw [List.map_cons, List.mem_cons, not_or] at hk
    rw [List.cons_append, substitute, substitute, ih hk.2]
    by_cases ha : rename.1 = a
    · rw [if_pos ha, if_neg (fun heq => hk.1 (heq.trans ha.symm)), if_pos ha]
    · rw [if_neg ha, if_neg ha]

/-- The order of the entries does not matter to a substitution. -/
theorem substitute_perm {renames renames' : List (α × α)} (h : renames.Perm renames')
    (hkeys : (renames.map Prod.fst).Nodup) (a : α) :
    substitute renames a = substitute renames' a := by
  have hkeys' : (renames'.map Prod.fst).Nodup := (h.map Prod.fst).nodup_iff.mp hkeys
  by_cases ha : a ∈ renames.map Prod.fst
  · obtain ⟨⟨k, v⟩, hmem, rfl⟩ := List.mem_map.mp ha
    rw [substitute_of_mem hkeys hmem, substitute_of_mem hkeys' (h.mem_iff.mp hmem)]
  · rw [substitute_of_notMem ha, substitute_of_notMem fun ha' => ha ((h.map _).mem_iff.mpr ha')]

/-- A name that is no key stays where it is. -/
theorem getElem?_replaceEach_of_notMem {renames : List (α × α)} {names : List α} {i : ℕ} {a : α}
    (hi : names[i]? = some a) (ha : a ∉ renames.map Prod.fst) :
    (replaceEach renames names)[i]? = some a := by
  induction renames generalizing names with
  | nil => exact hi
  | cons rename renames ih =>
    rw [List.map_cons, List.mem_cons, not_or] at ha
    rw [replaceEach_cons]
    refine ih ?_ ha.2
    rw [List.getElem?_replace_of_ne, hi]
    rw [hi, ne_eq, Option.some_inj]
    exact ha.1

/-- Names come from the list or from the entries. -/
theorem mem_of_mem_replaceEach {renames : List (α × α)} {names : List α} {a : α}
    (h : a ∈ replaceEach renames names) : a ∈ names ∨ a ∈ renames.map Prod.snd := by
  induction renames generalizing names with
  | nil => exact .inl h
  | cons rename renames ih =>
    rw [List.map_cons, List.mem_cons]
    rcases ih h with hmem | hmem
    · obtain ⟨i, hi⟩ := List.mem_iff_getElem?.mp hmem
      rw [List.getElem?_replace] at hi
      split at hi
      · next hkey =>
        split at hi
        · exact .inl (Option.some.inj hi ▸ List.mem_of_getElem? (beq_iff_eq.mp hkey))
        · exact .inr (.inl (Option.some.inj hi).symm)
      · exact .inl (List.mem_of_getElem? hi)
    · exact .inr (.inr hmem)

/-! ## When the two agree -/

/-- No entry produces, from a name of the list, the key of a later entry that would change it,
unless a name in front of it is that key. -/
def NoLaterKey (names : List α) (renames : List (α × α)) : Prop :=
  ∀ before k v after, renames = before ++ (k, v) :: after → k ∈ names →
    ∀ v', (v, v') ∈ after → v' ≠ v → names.idxOf v < names.idxOf k

/-- One more entry does what it does in the substitution. -/
theorem replace_map_substitute {names : List α} (hnames : names.Nodup) {renames : List (α × α)}
    {k v : α} (hk : k ∉ renames.map Prod.fst)
    (hclash : ∀ n ∈ names, (n, k) ∈ renames → v ≠ k → names.idxOf k < names.idxOf n) :
    (names.map (substitute renames)).replace k v =
      names.map (substitute (renames ++ [(k, v)])) := by
  refine List.ext_getElem? fun i => ?_
  rw [List.getElem?_replace, List.getElem?_map, List.getElem?_map, ← List.map_take]
  cases hi : names[i]? with
  | none => simp
  | some n =>
    rw [Option.map_some, Option.map_some, substitute_append_singleton hk]
    have hindex : names.idxOf n = i := by
      obtain ⟨hlt, rfl⟩ := List.getElem?_eq_some_iff.mp hi
      exact hnames.idxOf_getElem i hlt
    have hmem : n ∈ names := List.mem_of_getElem? hi
    have hself : substitute renames k = k := substitute_of_notMem hk
    by_cases hn : k = n
    · subst hn
      rw [if_pos rfl, hself, if_pos (beq_self_eq_true _)]
      split
      · next hfront =>
        -- a name in front has become the key: it is the entry's own value, or a clash
        obtain ⟨m, hm, heq⟩ := List.mem_map.mp hfront
        have hmfront := (List.mem_take_iff_idxOf_lt (List.mem_of_mem_take hm)).mp hm
        have hmk : substitute renames m ≠ m := by
          rintro hsame
          rw [hsame] at heq
          rw [heq, hindex] at hmfront
          exact Nat.lt_irrefl i hmfront
        have hentry := mem_of_substitute_ne hmk
        rw [heq] at hentry
        by_contra hne
        have hlt := hclash m (List.mem_of_mem_take hm) hentry fun hv => hne (congrArg some hv.symm)
        omega
      · rfl
    · rw [if_neg hn]
      split
      · next hkey =>
        have hnk : substitute renames n = k := Option.some.inj (beq_iff_eq.mp hkey)
        have hentry : (n, substitute renames n) ∈ renames := mem_of_substitute_ne (hnk ▸ hn)
        rw [hnk] at hentry
        split
        · rw [hnk]
        · next hfront =>
          by_contra hne
          have hlt := hclash n hmem hentry fun hv => hne (by rw [hnk, hv])
          have hkmem : k ∈ names := List.idxOf_lt_length_iff.mp
            (Nat.lt_trans hlt (List.idxOf_lt_length_of_mem hmem))
          refine hfront (List.mem_map.mpr ⟨k, ?_, hself⟩)
          exact (List.mem_take_iff_idxOf_lt hkmem).mpr (hindex ▸ hlt)
      · rfl

/-- Entries without such a clash act as one substitution. -/
theorem replaceEach_eq_map {names : List α} (hnames : names.Nodup) {renames : List (α × α)}
    (hkeys : (renames.map Prod.fst).Nodup) (h : NoLaterKey names renames) :
    replaceEach renames names = names.map (substitute renames) := by
  induction renames using List.reverseRecOn with
  | nil => exact (List.map_id names).symm
  | append_singleton renames rename ih =>
    obtain ⟨k, v⟩ := rename
    rw [List.map_append, List.nodup_append] at hkeys
    have hk : k ∉ renames.map Prod.fst := fun hmem =>
      hkeys.2.2 k hmem k (List.mem_singleton.mpr rfl) rfl
    have hearlier : NoLaterKey names renames := by
      rintro before k' v' after rfl hmem v'' hafter hne
      exact h before k' v' (after ++ [(k, v)]) (by simp) hmem v''
        (List.mem_append_left _ hafter) hne
    rw [replaceEach_append, ih hkeys.1 hearlier]
    refine replace_map_substitute hnames hk fun n hn hentry hne => ?_
    obtain ⟨before, after, rfl⟩ := List.append_of_mem hentry
    exact h before n k (after ++ [(k, v)]) (by simp) hn v (by simp) hne

/-- No entry produces, from a name of the list, the key of an entry that would change it,
unless a name in front of it is that key. -/
def NoKeyProduced (names : List α) (renames : List (α × α)) : Prop :=
  ∀ k v v', (k, v) ∈ renames → (v, v') ∈ renames → v' ≠ v → k ∈ names →
    names.idxOf v < names.idxOf k

/-- When no rename produces another's key, no order of them meets a key it has produced. -/
theorem NoKeyProduced.noLaterKey {names : List α} {renames renames' : List (α × α)}
    (h : NoKeyProduced names renames) (hperm : renames'.Perm renames) :
    NoLaterKey names renames' := by
  rintro before k v after rfl hk v' hafter hne
  exact h k v v' (hperm.mem_iff.mp (by simp)) (hperm.mem_iff.mp (by simp [hafter])) hne hk

private theorem replaceEach_of_notMem {renames : List (α × α)} {names : List α}
    (h : ∀ rename ∈ renames, rename.1 ∉ names) : replaceEach renames names = names := by
  induction renames with
  | nil => rfl
  | cons rename renames ih =>
    obtain ⟨hfirst, hrest⟩ := List.forall_mem_cons.mp h
    rw [replaceEach_cons, List.replace_of_not_mem hfirst, ih hrest]

/-- A name that is brought in once and then renamed is gone. -/
theorem notMem_replace_replace {names : List α} {k v v' : α} (hv : v ∉ names) (hne : v' ≠ v) :
    v ∉ (names.replace k v).replace v v' := by
  by_cases hk : k ∈ names
  · obtain ⟨front, back, rfl, hfront⟩ := List.eq_append_cons_of_mem hk
    obtain ⟨hvfront, hvback⟩ := not_or.mp (mt List.mem_append.mpr hv)
    rw [List.replace_append_right hfront, List.replace_cons_self,
      List.replace_append_right hvfront, List.replace_cons_self, List.mem_append, List.mem_cons]
    rintro (hmem | rfl | hmem)
    · exact hvfront hmem
    · exact hne rfl
    · exact hvback (List.mem_cons_of_mem k hmem)
  · rwa [List.replace_of_not_mem hk, List.replace_of_not_mem hv]

/-- An entry that produces a name taken further back exchanges the two: the place of the taken
name keeps it. -/
theorem getElem?_replaceEach_of_taken {front back : List α} {k v v' : α} (hk : k ∉ front)
    (hvfront : v ∉ front) (hvback : v ∈ back) {rest : List (α × α)}
    (hrest : v ∉ rest.map Prod.fst) :
    ∃ n : ℕ, (front ++ k :: back)[n]? = some v ∧
      (replaceEach ((k, v) :: (v, v') :: rest) (front ++ k :: back))[n]? = some v := by
  obtain ⟨j, hj⟩ := List.mem_iff_getElem?.mp hvback
  have hat (c : α) : (front ++ c :: back)[front.length + (j + 1)]? = some v := by
    rw [List.getElem?_append_right (Nat.le_add_right _ _), Nat.add_sub_cancel_left,
      List.getElem?_cons_succ, hj]
  have hstart : ((front ++ k :: back).replace k v).replace v v' = front ++ v' :: back := by
    rw [List.replace_append_right hk, List.replace_cons_self, List.replace_append_right hvfront,
      List.replace_cons_self]
  refine ⟨front.length + (j + 1), hat k, ?_⟩
  rw [replaceEach_cons, replaceEach_cons, hstart]
  exact getElem?_replaceEach_of_notMem (hat v') hrest

/-- A new name that no other entry brings in is gone after the entry that renames it. -/
theorem notMem_replaceEach_of_new {names : List α} {k v v' : α} (hv : v ∉ names) (hne : v' ≠ v)
    {others : List (α × α)} (hothers : ∀ rename ∈ others, rename.2 ≠ v) :
    v ∉ replaceEach (others ++ [(k, v), (v, v')]) names := by
  have hfresh : v ∉ replaceEach others names := by
    intro hmem
    rcases mem_of_mem_replaceEach hmem with hmem | hmem
    · exact hv hmem
    · obtain ⟨rename, hrename, heq⟩ := List.mem_map.mp hmem
      exact hothers rename hrename heq
  rw [replaceEach_append, replaceEach_cons, replaceEach_cons]
  exact notMem_replace_replace hfresh hne

/-- If every order of the entries acts as the substitution, none produces a key of another. -/
theorem noKeyProduced_of_forall_perm {names : List α} (hnames : names.Nodup)
    {renames : List (α × α)} (hkeys : (renames.map Prod.fst).Nodup)
    (hsubstituted : (names.map (substitute renames)).Nodup)
    (h : ∀ renames', renames'.Perm renames →
      replaceEach renames' names = names.map (substitute renames)) :
    NoKeyProduced names renames := by
  intro k v v' hkv hvv' hne hk
  have hk_ne : k ≠ v := by
    rintro rfl
    exact hne ((substitute_of_mem hkeys hvv').symm.trans (substitute_of_mem hkeys hkv))
  obtain ⟨rest, hperm⟩ : ∃ rest, ((k, v) :: (v, v') :: rest).Perm renames := by
    have hmem : (v, v') ∈ renames.erase (k, v) :=
      (List.mem_erase_of_ne fun heq => hk_ne (congrArg Prod.fst heq).symm).mpr hvv'
    exact ⟨_, ((List.perm_cons_erase hmem).symm.cons _).trans (List.perm_cons_erase hkv).symm⟩
  have hrestkeys : k ∉ rest.map Prod.fst ∧ v ∉ rest.map Prod.fst := by
    have hnodup := (hperm.map Prod.fst).nodup_iff.mpr hkeys
    rw [List.map_cons, List.map_cons, List.nodup_cons, List.nodup_cons, List.mem_cons,
      not_or] at hnodup
    exact ⟨hnodup.1.2, hnodup.2.1⟩
  by_contra hbehind
  by_cases hv : v ∈ names
  · -- the name is taken further back: renaming `k` first exchanges the two
    obtain ⟨front, back, rfl, hfront⟩ := List.eq_append_cons_of_mem hk
    have hindex : (front ++ k :: back).idxOf k = front.length := by
      rw [List.idxOf_append_of_notMem hfront, List.idxOf_cons_self, Nat.add_zero]
    have hvfront : v ∉ front := by
      intro hmem
      rw [hindex, List.idxOf_append_of_mem hmem] at hbehind
      exact hbehind (List.idxOf_lt_length_of_mem hmem)
    have hvback : v ∈ back := by
      rcases List.mem_append.mp hv with hmem | hmem
      · exact absurd hmem hvfront
      · exact (List.mem_cons.mp hmem).resolve_left hk_ne.symm
    obtain ⟨n, hbefore, hkept⟩ := getElem?_replaceEach_of_taken hfront hvfront hvback hrestkeys.2
    rw [h _ hperm, List.getElem?_map, hbefore, Option.map_some,
      substitute_of_mem hkeys hvv'] at hkept
    exact hne (Option.some.inj hkept)
  · -- the name is new: renaming `k` just before `v` takes it away again
    let producing := rest.filter (fun rename => decide (rename.2 = v))
    let others := rest.filter (fun rename => !decide (rename.2 = v))
    have hsplit : (producing ++ others).Perm rest := List.filter_append_perm _ rest
    have hlast : (producing ++ (others ++ [(k, v), (v, v')])).Perm renames := by
      rw [← List.append_assoc]
      exact (List.perm_append_comm.trans (hsplit.append_left [(k, v), (v, v')])).trans hperm
    have hidle : ∀ rename ∈ producing, rename.1 ∉ names := by
      rintro ⟨x, w⟩ hmem hx
      obtain ⟨hrest, hw⟩ := List.mem_filter.mp hmem
      obtain rfl : w = v := of_decide_eq_true hw
      have hentry : (x, w) ∈ renames :=
        hperm.mem_iff.mp (List.mem_cons_of_mem _ (List.mem_cons_of_mem _ hrest))
      have hsame : substitute renames x = substitute renames k :=
        (substitute_of_mem hkeys hentry).trans (substitute_of_mem hkeys hkv).symm
      obtain rfl := List.inj_on_of_nodup_map hsubstituted hx hk hsame
      exact hrestkeys.1 (List.mem_map_of_mem hrest)
    have hothers : ∀ rename ∈ others, rename.2 ≠ v := fun rename hmem =>
      by simpa using (List.mem_filter.mp hmem).2
    have hresult := h _ hlast
    rw [replaceEach_append, replaceEach_of_notMem hidle] at hresult
    refine notMem_replaceEach_of_new (k := k) hv hne hothers ?_
    rw [hresult]
    exact List.mem_map.mpr ⟨k, hk, substitute_of_mem hkeys hkv⟩

/-- The entries act as the substitution in every order exactly if none produces the key of
another one, unless that key stands in front. -/
theorem forall_perm_replaceEach_iff {names : List α} (hnames : names.Nodup)
    {renames : List (α × α)} (hkeys : (renames.map Prod.fst).Nodup)
    (hsubstituted : (names.map (substitute renames)).Nodup) :
    (∀ renames', renames'.Perm renames →
      replaceEach renames' names = names.map (substitute renames)) ↔
    NoKeyProduced names renames := by
  constructor
  · exact noKeyProduced_of_forall_perm hnames hkeys hsubstituted
  · intro h renames' hperm
    have hkeys' : (renames'.map Prod.fst).Nodup := (hperm.map Prod.fst).nodup_iff.mpr hkeys
    rw [replaceEach_eq_map hnames hkeys' (h.noLaterKey hperm)]
    exact List.map_congr_left fun a _ => substitute_perm hperm hkeys' a

end Text
