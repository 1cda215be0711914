import Reckon.Proofs.Source.Resolving

/-!
# Cutting a source ends by itself

`Grammar.cutGroups` takes a bound on its steps, but it is not the bound that stops it. Without one,
the groups of a text run out all the same, and not later than after as many passes as the text has
bytes (`cut_terminates`).

A pass may make the text longer, and a space or a separator that it puts in may make up a new
parenthesis together with what stands beside it. So neither the length nor the number of parentheses
goes down. What goes down is the number of occurrences of a character that wears (`Wears`). Where
the passes end without a fault, the table of symbols is closed (`closed_cut`).
-/

namespace Reckon.Grammar

/-- Replacing groups ends with this result. It looks at so many groups: the ones that it replaces,
and the one that it cannot replace. -/
inductive Cuts (grammar : Grammar) (constants : ConstantTable) :
    Working → Nat → Except SyntaxFault Working → Prop
  | done {working : Working} (h : grammar.cutStep constants working = .ok none) :
      Cuts grammar constants working 0 (.ok working)
  | refused {working : Working} {fault : SyntaxFault}
      (h : grammar.cutStep constants working = .error fault) :
      Cuts grammar constants working 1 (.error fault)
  | pass {working next : Working} {passes : Nat} {result : Except SyntaxFault Working}
      (h : grammar.cutStep constants working = .ok (some next))
      (hrest : Cuts grammar constants next passes result) :
      Cuts grammar constants working (passes + 1) result

variable {grammar : Grammar} {source : Text} {constants : ConstantTable} {working : Working}
  {passes : Nat} {result : Except SyntaxFault Working}

/-- A bound that the passes do not exceed changes nothing. -/
theorem Cuts.cutGroups_eq (h : grammar.Cuts constants working passes result) {steps : Nat}
    (hsteps : passes ≤ steps) : grammar.cutGroups constants steps working = result := by
  induction h generalizing steps with
  | done h =>
      cases steps with
      | zero => rfl
      | succ steps =>
          rw [cutGroups, h]
          rfl
  | refused h =>
      obtain ⟨steps, rfl⟩ := Nat.exists_eq_add_of_le' hsteps
      rw [cutGroups, h]
      rfl
  | pass h _ ih =>
      obtain ⟨steps, rfl⟩ := Nat.exists_eq_add_of_le' (Nat.le_of_add_left_le hsteps)
      rw [cutGroups, h]
      exact ih (by omega)

/-- Cutting a source comes to what its passes end with, if its bound leaves room for them. -/
theorem Cuts.cut_eq {text : Text}
    (h : grammar.Cuts constants ⟨text, .empty source⟩ passes result)
    (hextract : StringLiteral.extract (.empty grammar.quote source) source = .ok (text, constants))
    (hpasses : passes ≤ Text.utf8Size text) :
    grammar.cut source = do
      let working ← result
      let symbols ← grammar.finish working
      return (symbols, constants) := by
  rw [cut, hextract, ← h.cutGroups_eq (hpasses.trans (Nat.le_succ _))]
  rfl

/-- Whatever is replaced or refused, a closing parenthesis is in the text. -/
theorem closing_of_cutStep {outcome : Except SyntaxFault (Option Working)}
    (hstep : grammar.cutStep constants working = outcome) (houtcome : outcome ≠ .ok none) :
    grammar.closing <:+: working.text :=
  not_not.mp (mt cutStep_eq_none.mpr (hstep ▸ houtcome))

section Punctuated

variable (hgrammar : grammar.Punctuated)
include hgrammar

/-- Replacing groups ends, by induction on the occurrences of a character that wears. -/
theorem exists_cuts (h : working.Sound grammar source) {c : Char} (hc : grammar.Wears c) :
    ∃ passes result, grammar.Cuts constants working passes result := by
  induction hcount : working.text.count c using Nat.strongRecOn generalizing working with
  | _ count ih =>
      cases hstep : grammar.cutStep constants working with
      | error fault => exact ⟨1, .error fault, .refused hstep⟩
      | ok next =>
          cases next with
          | none => exact ⟨0, .ok working, .done hstep⟩
          | some next =>
              obtain ⟨hnext, hfewer⟩ := step_sound hgrammar h hstep
              obtain ⟨passes, result, hrest⟩ := ih _ (hcount ▸ hfewer c hc) hnext rfl
              exact ⟨passes + 1, result, .pass hstep hrest⟩

/-- Each pass but the last one uses up an occurrence of a character that wears, and the last one
still finds a closing parenthesis. -/
theorem Cuts.passes_le (h : grammar.Cuts constants working passes result)
    (hsound : working.Sound grammar source) {c : Char} (hc : grammar.Wears c) :
    passes = 0 ∨ grammar.closing <:+: working.text ∧
      passes + grammar.closing.count c ≤ working.text.count c + grammar.closing.length := by
  have hlength : 0 < grammar.closing.length :=
    List.length_pos_iff.mpr (hgrammar.nonempty (.closing, _) (by simp [punctuation]))
  induction h with
  | done => exact .inl rfl
  | refused h =>
      have hfound := closing_of_cutStep h (by simp)
      have hcount := hfound.sublist.count_le c
      exact .inr ⟨hfound, by omega⟩
  | pass h _ ih =>
      have hfound := closing_of_cutStep h (by simp)
      have hcount := hfound.sublist.count_le c
      obtain ⟨hnext, hfewer⟩ := step_sound hgrammar hsound h
      have hless := hfewer c hc
      refine .inr ⟨hfound, ?_⟩
      rcases ih hnext with rfl | ⟨-, hrest⟩ <;> omega

/-- There are not more passes than characters. The occurrences of the character that wears leave
room for all passes but the last one, and the rest of a closing parenthesis for that. -/
theorem Cuts.passes_le_length (h : grammar.Cuts constants working passes result)
    (hsound : working.Sound grammar source) : passes ≤ working.text.length := by
  obtain ⟨c, hc⟩ := exists_wears hgrammar
  rcases h.passes_le hgrammar hsound hc with rfl | ⟨hclosing, hpasses⟩
  · exact Nat.zero_le _
  · have hothers := hclosing.sublist.countP_le (p := fun other => ¬ (other == c) = true)
    have htext := List.length_eq_countP_add_countP (l := working.text) (· == c)
    have hparenthesis := List.length_eq_countP_add_countP (l := grammar.closing) (· == c)
    simp only [List.count] at hpasses
    omega

/-- Where all groups are replaced, the table is closed, the words are settled, and no closing
parenthesis is left. -/
theorem Cuts.sound {final : Working} (h : grammar.Cuts constants working passes (.ok final))
    (hsound : working.Sound grammar source) :
    final.Sound grammar source ∧ ¬ grammar.closing <:+: final.text := by
  generalize hresult : (Except.ok final : Except SyntaxFault Working) = result at h
  induction h with
  | done h =>
      cases hresult
      exact ⟨hsound, cutStep_eq_none.mp h⟩
  | refused => cases hresult
  | pass h _ ih => exact ih (step_sound hgrammar hsound h).1 hresult

/-- Cutting the text that is left of a source without its strings ends, and there are not more
passes than it has bytes. -/
theorem exists_cuts_of_extract {text : Text}
    (hextract : StringLiteral.extract (.empty grammar.quote source) source =
      .ok (text, constants)) :
    ∃ passes ≤ Text.utf8Size text, ∃ result,
      grammar.Cuts constants ⟨text, .empty source⟩ passes result := by
  obtain ⟨c, hc⟩ := exists_wears hgrammar
  have hsound := sound_extract hgrammar hextract
  obtain ⟨passes, result, hcuts⟩ : ∃ passes result,
      grammar.Cuts constants ⟨text, .empty source⟩ passes result :=
    exists_cuts hgrammar hsound hc
  have hpasses := hcuts.passes_le_length hgrammar hsound
  exact ⟨passes, hpasses.trans (Text.length_le_utf8Size text), result, hcuts⟩

/-- What is cut out of a source is a closed table with a root. -/
theorem closed_cut {symbols : SymbolTable} {learned : ConstantTable}
    (hcut : grammar.cut source = .ok (symbols, learned)) :
    symbols.Closed grammar source ∧ ∃ root < symbols.size, symbols.root = some root := by
  obtain ⟨⟨text, constants⟩, hextract, -⟩ := bind_eq_ok.mp hcut
  obtain ⟨passes, hpasses, result, hcuts⟩ := exists_cuts_of_extract hgrammar hextract
  obtain ⟨final, rfl, hrest⟩ := bind_eq_ok.mp ((hcuts.cut_eq hextract hpasses).symm.trans hcut)
  obtain ⟨table, hfinish, hsame⟩ := bind_eq_ok.mp hrest
  cases hsame
  obtain ⟨hfinal, hclosing⟩ := hcuts.sound hgrammar (sound_extract hgrammar hextract)
  exact closed_finish hfinal hclosing hfinish

end Punctuated

/-- Cutting ends for every source, with symbols or with a fault. Once the strings are taken out, the
groups are replaced until none is left or one cannot be replaced, without any bound on the number of
passes; there are not more of them than the text has bytes. This is so for every grammar that passes
the check, whatever its punctuation is made of. -/
theorem cut_terminates (hcheck : grammar.check = .ok ()) (source : Text) :
    match StringLiteral.extract (.empty grammar.quote source) source with
    | .error fault => grammar.cut source = .error fault
    | .ok (text, constants) =>
        ∃ passes ≤ Text.utf8Size text, ∃ result,
          grammar.Cuts constants ⟨text, .empty source⟩ passes result ∧
            grammar.cut source = do
              let working ← result
              let symbols ← grammar.finish working
              return (symbols, constants) := by
  cases hextract : StringLiteral.extract (.empty grammar.quote source) source with
  | error fault =>
      rw [cut, hextract]
      rfl
  | ok parts =>
      obtain ⟨passes, hpasses, result, hcuts⟩ :=
        exists_cuts_of_extract (punctuated_of_check hcheck) hextract
      exact ⟨passes, hpasses, result, hcuts, hcuts.cut_eq hextract hpasses⟩

/-- A closing parenthesis that is made of two opening ones: the groups of a call in a sum run out
within the twelve bytes of the source. -/
theorem cut_terminates_doubled :
    let grammar : Grammar := { standard with closing := ['(', '('] }
    let source := "(a(b(( + c((".toList
    grammar.check = .ok () ∧ ∃ passes ≤ 12, ∃ working,
      grammar.Cuts (.empty grammar.quote source) ⟨source, .empty source⟩ passes (.ok working) := by
  intro grammar source
  have hcheck : grammar.check = .ok () := rfl
  have hextract : StringLiteral.extract (.empty grammar.quote source) source =
      .ok (source, .empty grammar.quote source) := by
    rw [StringLiteral.extract]
    rfl
  have hcut : (grammar.cut source).toOption.isSome = true := by decide +kernel
  have hends := cut_terminates hcheck source
  rw [hextract] at hends
  obtain ⟨passes, hpasses, result, hcuts, hresult⟩ := hends
  cases result with
  | error fault =>
      rw [hresult] at hcut
      cases hcut
  | ok working => exact ⟨hcheck, passes, hpasses, working, hcuts⟩

end Reckon.Grammar
