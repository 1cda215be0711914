import Mathlib.Data.List.Induction
import Reckon.Grammar.Levels
import Reckon.Proofs.Fallible

/-!
# What a table of levels remembers

A table of levels is built by insertions, one token at a time. `Levels.run_levels` says that it
remembers of each token the last insertion, and nothing else: where the token stands is the level of
that insertion, and the tokens of a level stand in the order of theirs. One insertion keeps this
(`Keeps.insert`), so any run of calls does.
-/

namespace Reckon.Levels

/-- A call on a table: a token is put on a level, or several are, one after another. -/
inductive Call where
  | insert (level : Nat) (token : Text)
  | insertAll (level : Nat) (tokens : List Text)

/-- The insertions that a call makes. -/
def Call.insertions : Call → List (Nat × Text)
  | insert level token => [(level, token)]
  | insertAll level tokens => tokens.map fun token => (level, token)

/-- The table after a call. -/
def after (table : Levels) : Call → Levels
  | .insert level token => table.insert level token
  | .insertAll level tokens => table.insertAll level tokens

/-- The table after a run of calls that began with none. -/
def run (calls : List Call) : Levels :=
  calls.foldl after empty

/-- The insertions that a run of calls makes, in order. -/
def history (calls : List Call) : List (Nat × Text) :=
  calls.flatMap Call.insertions

/-- The insertion with this number is the last one of its token. -/
def Last (history : List (Nat × Text)) (n : Nat) (entry : Nat × Text) : Prop :=
  history[n]? = some entry ∧ ∀ m > n, ∀ level, history[m]? ≠ some (level, entry.2)

/-- On a level, the first token was last inserted before the second one was. -/
def Precedes (history : List (Nat × Text)) (level : Nat) (a b : Text) : Prop :=
  ∃ m n, m < n ∧ Last history m (level, a) ∧ Last history n (level, b)

/-- The table has the tokens where and in the order in which they were last inserted. -/
structure Keeps (table : Levels) (history : List (Nat × Text)) : Prop where
  ascending : table.rows.Pairwise fun a b => a.1 < b.1
  filled : ∀ row ∈ table.rows, row.2 ≠ []
  distinct : (table.tokens.map (·.2)).Nodup
  placed : ∀ entry, entry ∈ table.tokens ↔ ∃ n, Last history n entry
  ordered : ∀ row ∈ table.rows, row.2.Pairwise (Precedes history row.1)

section Insertion

variable {rows : List (Nat × List Text)} {level : Nat} {token : Text}

/-- The rows that are left without a token have lost it, and are not empty. -/
theorem mem_removeToken {row : Nat × List Text} :
    row ∈ removeToken token rows ↔
      (∃ tokens, (row.1, tokens) ∈ rows ∧ row.2 = tokens.filter (· != token)) ∧ row.2 ≠ [] := by
  unfold removeToken
  rw [List.mem_filter, List.mem_map, Bool.not_eq_true', List.isEmpty_eq_false_iff]
  constructor
  · rintro ⟨⟨⟨level, tokens⟩, hmem, rfl⟩, hne⟩
    exact ⟨⟨tokens, hmem, rfl⟩, hne⟩
  · rintro ⟨⟨tokens, hmem, htokens⟩, hne⟩
    exact ⟨⟨(row.1, tokens), hmem, Prod.ext rfl htokens.symm⟩, hne⟩

/-- Removing a token takes it out of the list of all tokens. -/
theorem tokens_removeToken (token : Text) (rows : List (Nat × List Text)) :
    tokens ⟨removeToken token rows⟩ = (tokens ⟨rows⟩).filter (·.2 != token) := by
  induction rows with
  | nil => rfl
  | cons row rows ih =>
      have hrow : (row.2.filter (· != token)).map (fun other => (row.1, other)) =
          (row.2.map fun other => (row.1, other)).filter (·.2 != token) := by
        rw [List.filter_map]
        rfl
      show tokens ⟨List.filter _ (_ :: List.map _ rows)⟩ =
        List.filter _ ((row.2.map fun other => (row.1, other)) ++ tokens ⟨rows⟩)
      rw [List.filter_append, ← ih, ← hrow, List.filter_cons]
      split
      · rfl
      · next hempty =>
          have hnil : row.2.filter (· != token) = [] := by simpa using hempty
          rw [hnil]
          rfl

theorem ascending_removeToken (token : Text) (h : rows.Pairwise fun a b => a.1 < b.1) :
    (removeToken token rows).Pairwise fun a b => a.1 < b.1 := by
  refine List.Pairwise.filter _ (List.pairwise_map.mpr ?_)
  exact h

/-- A row with a token at the end of its level is an old one, or has the token at its end. -/
theorem mem_appendToken {row : Nat × List Text} (h : row ∈ appendToken level token rows) :
    row ∈ rows ∨ ∃ before, row = (level, before ++ [token]) ∧
      (before = [] ∨ (level, before) ∈ rows) := by
  fun_induction appendToken level token rows with
  | case1 =>
      rw [List.mem_singleton] at h
      exact .inr ⟨[], h, .inl rfl⟩
  | case2 first tokens rows hlt =>
      rcases List.mem_cons.mp h with hnew | hold
      · exact .inr ⟨[], hnew, .inl rfl⟩
      · exact .inl hold
  | case3 tokens rows hnot =>
      rcases List.mem_cons.mp h with hnew | hold
      · exact .inr ⟨tokens, hnew, .inr (List.mem_cons_self ..)⟩
      · exact .inl (List.mem_cons_of_mem _ hold)
  | case4 first tokens rows hnot hne ih =>
      rcases List.mem_cons.mp h with hfirst | hrest
      · exact .inl (hfirst ▸ List.mem_cons_self ..)
      · rcases ih hrest with hold | ⟨before, hrow, hbefore⟩
        · exact .inl (List.mem_cons_of_mem _ hold)
        · exact .inr ⟨before, hrow, hbefore.imp_right (List.mem_cons_of_mem _)⟩

/-- The levels with a token at the end of one of them ascend. -/
theorem ascending_appendToken (level : Nat) (token : Text)
    (h : rows.Pairwise fun a b => a.1 < b.1) :
    (appendToken level token rows).Pairwise fun a b => a.1 < b.1 := by
  fun_induction appendToken level token rows with
  | case1 => exact List.pairwise_singleton _ _
  | case2 first tokens rows hlt =>
      refine List.pairwise_cons.mpr ⟨?_, h⟩
      intro row hrow
      show level < row.1
      rcases List.mem_cons.mp hrow with rfl | hrow
      · exact hlt
      · have hfirst := List.rel_of_pairwise_cons h hrow
        omega
  | case3 tokens rows hnot => exact List.pairwise_cons.mpr (List.pairwise_cons.mp h)
  | case4 first tokens rows hnot hne ih =>
      obtain ⟨hfirst, hrest⟩ := List.pairwise_cons.mp h
      refine List.pairwise_cons.mpr ⟨?_, ih hrest⟩
      intro row hrow
      rcases mem_appendToken hrow with hold | ⟨before, rfl, -⟩
      · exact hfirst row hold
      · show first < level
        omega

/-- Appending a token adds it to the list of all tokens. -/
theorem perm_tokens_appendToken (level : Nat) (token : Text) (rows : List (Nat × List Text)) :
    (tokens ⟨appendToken level token rows⟩).Perm ((level, token) :: tokens ⟨rows⟩) := by
  fun_induction appendToken level token rows with
  | case1 | case2 => exact .refl _
  | case3 tokens rows hnot =>
      show (((tokens ++ [token]).map fun other => (level, other)) ++ Levels.tokens ⟨rows⟩).Perm
        ((level, token) :: ((tokens.map fun other => (level, other)) ++ Levels.tokens ⟨rows⟩))
      rw [List.map_append, List.append_assoc]
      exact List.perm_middle
  | case4 first tokens rows hnot hne ih =>
      exact (List.Perm.append_left _ ih).trans List.perm_middle

theorem perm_tokens_insert (table : Levels) (level : Nat) (token : Text) :
    (table.insert level token).tokens.Perm
      ((level, token) :: table.tokens.filter (·.2 != token)) := by
  have hall := perm_tokens_appendToken level token (removeToken token table.rows)
  rwa [tokens_removeToken] at hall

end Insertion

section Step

variable {table : Levels} {past : List (Nat × Text)} {level : Nat} {token : Text}

/-- The last insertion is the last one of its token; before it stand the last ones of the other
tokens. -/
theorem last_append {n : Nat} {entry : Nat × Text} :
    Last (past ++ [(level, token)]) n entry ↔
      n = past.length ∧ entry = (level, token) ∨ entry.2 ≠ token ∧ Last past n entry := by
  constructor
  · rintro ⟨hentry, hlater⟩
    rcases getElem?_concat_eq_some.mp hentry with hold | ⟨rfl, rfl⟩
    · have hlt := (List.getElem?_eq_some_iff.mp hold).1
      refine .inr ⟨fun htoken => ?_, hold, fun m hm other hother => ?_⟩
      · exact hlater _ hlt level (getElem?_concat_eq_some.mpr (.inr ⟨rfl, htoken ▸ rfl⟩))
      · exact hlater m hm other (getElem?_concat_eq_some.mpr (.inl hother))
    · exact .inl ⟨rfl, rfl⟩
  · rintro (⟨rfl, rfl⟩ | ⟨hne, hold, hlater⟩)
    · refine ⟨getElem?_concat_eq_some.mpr (.inr ⟨rfl, rfl⟩), fun m hm other hother => ?_⟩
      rcases getElem?_concat_eq_some.mp hother with hold | ⟨rfl, -⟩
      · exact Nat.lt_asymm hm (List.getElem?_eq_some_iff.mp hold).1
      · exact Nat.lt_irrefl _ hm
    · refine ⟨getElem?_concat_eq_some.mpr (.inl hold), fun m hm other hother => ?_⟩
      rcases getElem?_concat_eq_some.mp hother with hother | ⟨-, hsame⟩
      · exact hlater m hm other hother
      · exact hne (Prod.mk.inj hsame).2.symm

theorem precedes_append {tokens : List Text} {row : Nat} (hne : ∀ other ∈ tokens, other ≠ token)
    (h : tokens.Pairwise (Precedes past row)) :
    tokens.Pairwise (Precedes (past ++ [(level, token)]) row) := by
  refine h.imp_of_mem ?_
  rintro a b ha hb ⟨m, n, hlt, hm, hn⟩
  exact ⟨m, n, hlt, last_append.mpr (.inr ⟨hne a ha, hm⟩),
    last_append.mpr (.inr ⟨hne b hb, hn⟩)⟩

theorem keeps_empty : empty.Keeps [] where
  ascending := .nil
  filled := List.forall_mem_nil _
  distinct := .nil
  placed entry := by simp [empty, tokens, Last]
  ordered := List.forall_mem_nil _

/-- What a row keeps when a token is removed are other tokens of its level, in their order. -/
theorem Keeps.of_removeToken (h : table.Keeps past) {row : Nat × List Text}
    (hrow : row ∈ removeToken token table.rows) :
    (∀ other ∈ row.2, other ≠ token) ∧ row.2.Pairwise (Precedes past row.1) ∧
      ∀ other ∈ row.2, (row.1, other) ∈ table.tokens := by
  obtain ⟨⟨tokens, hmem, htokens⟩, -⟩ := mem_removeToken.mp hrow
  rw [htokens]
  refine ⟨?_, (h.ordered _ hmem).filter _, ?_⟩
  · intro other hother
    simpa using (List.mem_filter.mp hother).2
  · intro other hother
    exact List.mem_flatMap.mpr
      ⟨_, hmem, List.mem_map.mpr ⟨other, (List.mem_filter.mp hother).1, rfl⟩⟩

/-- A token that stands on a level precedes another one that is inserted there. -/
theorem Keeps.precedes_inserted (h : table.Keeps past) {other : Text} (hne : other ≠ token)
    (hother : (level, other) ∈ table.tokens) :
    Precedes (past ++ [(level, token)]) level other token := by
  obtain ⟨m, hm⟩ := (h.placed _).mp hother
  have hlt : m < past.length := (List.getElem?_eq_some_iff.mp hm.1).1
  exact ⟨m, past.length, hlt, last_append.mpr (.inr ⟨hne, hm⟩), last_append.mpr (.inl ⟨rfl, rfl⟩)⟩

/-- One more insertion is kept. -/
theorem Keeps.insert (h : table.Keeps past) (level : Nat) (token : Text) :
    (table.insert level token).Keeps (past ++ [(level, token)]) := by
  have hperm := perm_tokens_insert table level token
  constructor
  case ascending =>
    exact ascending_appendToken level token (ascending_removeToken token h.ascending)
  case filled =>
    intro row hrow
    rcases mem_appendToken hrow with hold | ⟨before, rfl, -⟩
    · exact (mem_removeToken.mp hold).2
    · exact List.append_ne_nil_of_right_ne_nil before (List.cons_ne_nil token [])
  case distinct =>
    rw [(hperm.map (·.2)).nodup_iff, List.map_cons, List.nodup_cons]
    refine ⟨?_, h.distinct.sublist (List.filter_sublist.map _)⟩
    intro htoken
    obtain ⟨entry, hentry, heq⟩ := List.mem_map.mp htoken
    have hne := (List.mem_filter.mp hentry).2
    simp [heq] at hne
  case placed =>
    intro entry
    rw [hperm.mem_iff, List.mem_cons, List.mem_filter, h.placed]
    simp only [last_append, bne_iff_ne, exists_or, exists_eq_left, exists_and_left]
    exact or_congr Iff.rfl and_comm
  case ordered =>
    intro row hrow
    rcases mem_appendToken hrow with hold | ⟨before, rfl, hbefore⟩
    · obtain ⟨hne, hpairs, -⟩ := h.of_removeToken hold
      exact precedes_append hne hpairs
    · -- The token comes last on its level, behind those that stood there before.
      rcases hbefore with rfl | hbefore
      · exact List.pairwise_singleton _ _
      · obtain ⟨hne, hpairs, hmem⟩ := h.of_removeToken hbefore
        refine List.pairwise_append.mpr
          ⟨precedes_append hne hpairs, List.pairwise_singleton _ _, ?_⟩
        intro other hother last hlast
        obtain rfl := List.mem_singleton.mp hlast
        exact h.precedes_inserted (hne other hother) (hmem other hother)

end Step

/-- All insertions are kept. -/
theorem keeps_foldl (insertions : List (Nat × Text)) :
    (insertions.foldl (fun table entry => table.insert entry.1 entry.2) empty).Keeps
      insertions := by
  induction insertions using List.reverseRecOn with
  | nil => exact keeps_empty
  | append_singleton insertions last ih =>
      rw [List.foldl_append]
      exact ih.insert last.1 last.2

/-- A call makes its insertions one after another. -/
theorem after_eq (table : Levels) (call : Call) :
    table.after call =
      call.insertions.foldl (fun table entry => table.insert entry.1 entry.2) table := by
  cases call with
  | insert level token => rfl
  | insertAll level tokens =>
      show tokens.foldl (fun table token => table.insert level token) table =
        (tokens.map fun token => (level, token)).foldl _ table
      rw [List.foldl_map]

/-- A run of calls makes all their insertions one after another. -/
theorem run_eq (calls : List Call) :
    run calls =
      (history calls).foldl (fun table entry => table.insert entry.1 entry.2) empty := by
  rw [run, history, List.foldl_flatMap]
  exact congrArg (fun step => calls.foldl step empty) (funext₂ after_eq)

section Lookup

variable {table : Levels} {past : List (Nat × Text)}

/-- The token of an entry has been inserted. -/
theorem exists_last {token : Text} :
    (∃ level n, Last past n (level, token)) ↔ token ∈ past.map (·.2) := by
  constructor
  · rintro ⟨level, n, hentry, -⟩
    exact List.mem_map.mpr ⟨(level, token), List.mem_of_getElem? hentry, rfl⟩
  · intro h
    induction past using List.reverseRecOn with
    | nil => cases h
    | append_singleton past last ih =>
        by_cases hlast : last.2 = token
        · exact ⟨last.1, past.length, last_append.mpr (.inl ⟨rfl, by rw [← hlast]⟩)⟩
        · have hpast : token ∈ past.map (·.2) := by
            simpa [Ne.symm hlast] using h
          obtain ⟨level, n, hn⟩ := ih hpast
          exact ⟨level, n, last_append.mpr (.inr ⟨Ne.symm hlast, hn⟩)⟩

/-- The level of a token is the one that it stands on. -/
theorem level_eq_some (h : (table.tokens.map (·.2)).Nodup) {token : Text} {level : Nat} :
    table.level? token = some level ↔ (level, token) ∈ table.tokens := by
  rw [level?, Option.map_eq_some_iff]
  constructor
  · rintro ⟨⟨found, other⟩, hfind, rfl⟩
    obtain rfl : other = token := by simpa using List.find?_some hfind
    exact List.mem_of_find?_eq_some hfind
  · intro hmem
    exact ⟨(level, token), find_of_distinct h hmem, rfl⟩

/-- The tokens of a table are those that were inserted. -/
theorem Keeps.mem_tokens (h : table.Keeps past) {token : Text} :
    token ∈ table.tokens.map (·.2) ↔ token ∈ past.map (·.2) := by
  refine Iff.trans ?_ exists_last
  rw [List.mem_map]
  constructor
  · rintro ⟨entry, hentry, rfl⟩
    exact ⟨entry.1, (h.placed entry).mp hentry⟩
  · rintro ⟨level, hlast⟩
    exact ⟨(level, token), (h.placed _).mpr hlast, rfl⟩

end Lookup

/-- After any run of calls the table keeps the last insertion of each token: its levels ascend and
none is empty, and the tokens of a level stand in the order of their last insertions. A token that
was inserted occurs once in the whole table, on the level of its last insertion, and no other
occurs. -/
theorem run_levels (calls : List Call) :
    (run calls).Keeps (history calls) ∧
      (∀ token, ((run calls).tokens.map (·.2)).count token =
        if token ∈ (history calls).map (·.2) then 1 else 0) ∧
      (∀ token level, (run calls).level? token = some level ↔
        ∃ n, Last (history calls) n (level, token)) ∧
      ∀ token, (run calls).level? token = none ↔ token ∉ (history calls).map (·.2) := by
  have hkeeps : (run calls).Keeps (history calls) := by
    rw [run_eq]
    exact keeps_foldl (history calls)
  have hlevel (token : Text) (level : Nat) : (run calls).level? token = some level ↔
      ∃ n, Last (history calls) n (level, token) := by
    rw [level_eq_some hkeeps.distinct, hkeeps.placed]
  refine ⟨hkeeps, ?_, hlevel, ?_⟩
  · intro token
    rw [hkeeps.distinct.count]
    exact if_congr hkeeps.mem_tokens rfl rfl
  · intro token
    rw [← exists_last, Option.eq_none_iff_forall_ne_some]
    simp only [ne_eq, hlevel, not_exists]

/-- A token that is inserted on a second level leaves the first one, which disappears when it was
its last; one that is inserted again on its own level moves to the end. -/
example : (run [.insertAll 2 [['+'], ['-']], .insert 0 ['*'], .insert 1 ['*'],
    .insert 2 ['+']]).rows = [(1, [['*']]), (2, [['-'], ['+']])] := by
  decide

end Reckon.Levels
