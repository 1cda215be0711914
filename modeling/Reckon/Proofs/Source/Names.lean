import Mathlib.Data.List.Nodup
import Reckon.Proofs.Text.Classes
import Reckon.Proofs.Text.Patterns
import Reckon.Source.Name

/-!
# Generated names

A supply issues each name once and none that the source says (`Issued.take`). So a word that comes
from the source is never taken for a generated name, however much it looks like one, and the names
of two supplies never meet.

The search for a name has no bound. It ends because it never looks at the same name again, and a
source has only so many parts that it could take for names (`exists_searches`).
-/

namespace Reckon

/-- A word that starts as generated names do, and that the source does not say. -/
structure Generated (source name : Text) : Prop where
  word : Text.isWord name = true
  head : name.head? = some '_'
  hidden : ¬ name <:+: source

namespace Generated

variable {source name : Text}

theorem isWordChar_of_mem (h : Generated source name) {c : Char} (hc : c ∈ name) :
    Text.isWordChar c = true := by
  have hword := h.word
  rw [Text.isWord, Bool.and_eq_true, List.all_eq_true] at hword
  exact hword.2 c hc

theorem not_mem (h : Generated source name) {c : Char} (hc : Text.isWordChar c = false) :
    c ∉ name := by
  intro hmem
  rw [h.isWordChar_of_mem hmem] at hc
  cases hc

theorem ne_nil (h : Generated source name) : name ≠ [] := by
  rintro rfl
  cases h.head

end Generated

namespace NameSupply

theorem nameOf_injective {stem : Text} {m n : Nat} (h : nameOf stem m = nameOf stem n) : m = n := by
  have hdigits : Nat.toDigits 10 m = Nat.toDigits 10 n := List.append_cancel_left h
  have hvalue := congrArg (fun digits => Nat.ofDigitChars 10 digits 0) hdigits
  simpa only [Nat.ofDigitChars_ten_toDigits] using hvalue

theorem isWord_nameOf {stem : Text} (h : Text.isWord stem = true) (n : Nat) :
    Text.isWord (nameOf stem n) = true := by
  simp only [Text.isWord, Bool.and_eq_true, Bool.not_eq_true', List.isEmpty_eq_false_iff] at h ⊢
  refine ⟨List.append_ne_nil_of_left_ne_nil h.1 _, ?_⟩
  rw [nameOf, List.all_append, Bool.and_eq_true, List.all_eq_true (l := Nat.toDigits 10 n)]
  refine ⟨h.2, fun c hc => ?_⟩
  exact isWordChar_of_isDigit (Nat.isDigit_of_mem_toDigits (by decide) (by decide) hc)

/-- The search for a name ends at a number that is not below its start, with a name that does not
occur in the source. -/
theorem freshFrom_spec (stem source : Text) (n : Nat) :
    n ≤ freshFrom stem source n ∧
      Text.contains (nameOf stem (freshFrom stem source n)) source = false := by
  fun_induction freshFrom stem source n with
  | case1 n hfound ih => exact ⟨by omega, ih.2⟩
  | case2 n hfresh => exact ⟨Nat.le_refl n, by simpa using hfresh⟩

/-- A stem and a number are not empty, even if the stem is. -/
theorem nameOf_ne_nil (stem : Text) (n : Nat) : nameOf stem n ≠ [] :=
  List.append_ne_nil_of_right_ne_nil stem Nat.toDigits_ne_nil

/-- Searching for a name ends after so many turns, with this name and this supply. A turn looks at
the next name and counts it. The last turn finds one that does not occur in the source. -/
inductive Searches : NameSupply → Nat → Text × NameSupply → Prop
  | found {names : NameSupply}
      (h : Text.contains (nameOf names.stem names.next) names.source = false) :
      Searches names 1 (nameOf names.stem names.next, { names with next := names.next + 1 })
  | passed {names : NameSupply} {turns : Nat} {result : Text × NameSupply}
      (h : Text.contains (nameOf names.stem names.next) names.source = true)
      (hrest : Searches { names with next := names.next + 1 } turns result) :
      Searches names (turns + 1) result

section Search

variable {names : NameSupply} {turns : Nat} {result : Text × NameSupply}

/-- There is a turn, and what the turns before the last one look at occurs in the source. -/
theorem Searches.passes (h : names.Searches turns result) :
    0 < turns ∧ ∀ i, i + 1 < turns → nameOf names.stem (names.next + i) <:+: names.source := by
  induction h with
  | found => exact ⟨Nat.one_pos, fun i hi => by omega⟩
  | @passed names turns result h _ ih =>
      refine ⟨Nat.succ_pos turns, fun i hi => ?_⟩
      cases i with
      | zero => exact Text.contains_iff_isInfix.mp h
      | succ i =>
          have hlater := ih.2 i (by omega)
          rwa [show names.next + 1 + i = names.next + (i + 1) by omega] at hlater

/-- There are no more turns than pairs of places in the source. The turns before the last one look
at different parts of it, and the empty part, which is no name, makes up for the last one. -/
theorem Searches.turns_le (h : names.Searches turns result) :
    turns ≤ (names.source.length + 1) ^ 2 := by
  obtain ⟨hpositive, hpasses⟩ := h.passes
  let passed := (List.range (turns - 1)).map fun i => nameOf names.stem (names.next + i)
  have hdistinct : ([] :: passed).Nodup := by
    refine List.nodup_cons.mpr ⟨?_, List.nodup_range.map_on ?_⟩
    · intro hmem
      obtain ⟨i, -, hi⟩ := List.mem_map.mp hmem
      exact nameOf_ne_nil _ _ hi
    · intro i _ j _ hsame
      exact Nat.add_left_cancel (nameOf_injective hsame)
  have hparts : ∀ part ∈ [] :: passed, part <:+: names.source := by
    refine List.forall_mem_cons.mpr ⟨List.nil_infix, ?_⟩
    intro part hpart
    obtain ⟨i, hi, rfl⟩ := List.mem_map.mp hpart
    have hlt := List.mem_range.mp hi
    exact hpasses i (by omega)
  calc turns
      = ([] :: passed).length := by simp [passed]; omega
    _ ≤ (names.source.length + 1) ^ 2 := Text.length_le_of_distinct hdistinct hparts

/-- The search from a number on ends. -/
theorem exists_searches_from (stem source : Text) (n : Nat) :
    ∃ turns, Searches ⟨stem, source, n⟩ turns
      (nameOf stem (freshFrom stem source n), ⟨stem, source, freshFrom stem source n + 1⟩) := by
  fun_induction freshFrom stem source n with
  | case1 n hfound ih =>
      obtain ⟨turns, hrest⟩ := ih
      exact ⟨turns + 1, .passed hfound hrest⟩
  | case2 n hfresh => exact ⟨1, .found (by simpa using hfresh)⟩

/-- A name is taken by a search that ends, and there are no more turns than pairs of places in the
source. -/
theorem exists_searches (names : NameSupply) :
    ∃ turns ≤ (names.source.length + 1) ^ 2, names.Searches turns names.take := by
  obtain ⟨turns, hsearch⟩ := exists_searches_from names.stem names.source names.next
  exact ⟨turns, hsearch.turns_le, hsearch⟩

end Search

/-- The names have been taken from the supply. -/
structure Issued (names : NameSupply) (issued : List Text) : Prop where
  distinct : issued.Nodup
  numbered : ∀ name ∈ issued, ∃ n < names.next, name = nameOf names.stem n
  hidden : ∀ name ∈ issued, ¬ name <:+: names.source

namespace Issued

variable {names : NameSupply} {issued : List Text}

theorem nil (names : NameSupply) : Issued names [] :=
  ⟨.nil, by simp, by simp⟩

theorem take_not_mem (h : Issued names issued) : names.take.1 ∉ issued := by
  intro hmem
  obtain ⟨n, hn, hname⟩ := h.numbered _ hmem
  have heq := nameOf_injective hname
  have hle := (freshFrom_spec names.stem names.source names.next).1
  omega

/-- The next name is issued in its turn. -/
theorem take (h : Issued names issued) : Issued names.take.2 (issued ++ [names.take.1]) := by
  obtain ⟨hle, hfresh⟩ := freshFrom_spec names.stem names.source names.next
  refine ⟨?_, ?_, ?_⟩
  · refine List.nodup_append.mpr ⟨h.distinct, by simp, fun name hname other hother => ?_⟩
    rw [List.mem_singleton] at hother
    rintro rfl
    exact h.take_not_mem (hother ▸ hname)
  · intro name hname
    rcases List.mem_append.mp hname with hname | hname
    · obtain ⟨n, hn, rfl⟩ := h.numbered name hname
      exact ⟨n, Nat.lt_succ_of_lt (Nat.lt_of_lt_of_le hn hle), rfl⟩
    · rw [List.mem_singleton] at hname
      exact ⟨_, Nat.lt_succ_self _, hname⟩
  · intro name hname
    rcases List.mem_append.mp hname with hname | hname
    · exact h.hidden name hname
    · rw [List.mem_singleton] at hname
      subst hname
      intro hwithin
      have hfound := Text.contains_of_isInfix hwithin
      exact Bool.false_ne_true (hfresh.symm.trans hfound)

theorem generated (h : Issued names issued) (hword : Text.isWord names.stem = true)
    (hhead : names.stem.head? = some '_') {name : Text} (hname : name ∈ issued) :
    Generated names.source name := by
  obtain ⟨n, -, rfl⟩ := h.numbered name hname
  refine ⟨isWord_nameOf hword n, ?_, h.hidden _ hname⟩
  rw [nameOf, List.head?_append, hhead, Option.some_or]

/-- Supplies whose stems differ at some place never issue the same name. -/
theorem disjoint {others : NameSupply} {taken : List Text} (h : Issued names issued)
    (hothers : Issued others taken) {i : Nat} {c d : Char} (hc : names.stem[i]? = some c)
    (hd : others.stem[i]? = some d) (hne : c ≠ d) {name : Text} (hname : name ∈ issued) :
    name ∉ taken := by
  intro hother
  obtain ⟨m, -, hm⟩ := h.numbered name hname
  obtain ⟨n, -, hn⟩ := hothers.numbered name hother
  have hfirst : name[i]? = some c := by
    rw [hm, nameOf, List.getElem?_append_left (List.getElem?_eq_some_iff.mp hc).1, hc]
  have hsecond : name[i]? = some d := by
    rw [hn, nameOf, List.getElem?_append_left (List.getElem?_eq_some_iff.mp hd).1, hd]
  exact hne (Option.some.inj (hfirst.symm.trans hsecond))

end Issued

end NameSupply

end Reckon
