import Reckon.Proofs.Source.Indices

/-!
# One number for each symbol

A table of symbols is asked for one thing after another. `SymbolTable.run_numbers` says what any run
of requests leaves. Symbols are numbered as they are entered, and neither a number nor a symbol
changes any more; each has a name that no other has and that the source does not say; equal texts
have one symbol, and so have equal calls; and symbols refer to earlier ones only. A text may be
entered before it becomes the name of another symbol: from then on it stands for that symbol.
-/

namespace Reckon

theorem eraseDups_concat_of_mem {α : Type} [BEq α] [LawfulBEq α] {as : List α} {a : α}
    (h : a ∈ as) : (as ++ [a]).eraseDups = as.eraseDups := by
  simp [List.eraseDups_append, List.removeAll, h]

theorem eraseDups_concat_of_not_mem {α : Type} [BEq α] [LawfulBEq α] {as : List α} {a : α}
    (h : a ∉ as) : (as ++ [a]).eraseDups = as.eraseDups ++ [a] := by
  simp [List.eraseDups_append, List.eraseDups_cons, List.removeAll, h]

namespace SymbolTable

/-- The numbers that a run of requests on a table is answered with. -/
def answersFrom (table : SymbolTable) : List Request → List Nat
  | [] => []
  | request :: requests =>
    (table.serve request).1.toList ++ answersFrom (table.serve request).2 requests

/-- The numbers that a run of requests on the table of a source is answered with. -/
def answers (source : Text) (requests : List Request) : List Nat :=
  answersFrom (empty source) requests

/-- The arguments of each call in a run are numbers that requests before it were answered with. -/
inductive Ordered (source : Text) : List Request → Prop where
  | nil : Ordered source []
  | snoc {requests : List Request} {request : Request} (before : Ordered source requests)
      (h : ∀ id ∈ request.arguments, id ∈ answers source requests) :
      Ordered source (requests ++ [request])

/-- Some request of a run was answered with this number, and it was not for the name of a symbol
that the table had then. -/
def Answered (source : Text) (requests : List Request) (request : Request) (id : Nat) : Prop :=
  ∃ before after, requests = before ++ request :: after ∧
    ¬ request.IsName (run source before) ∧ ((run source before).serve request).1 = some id

variable {source : Text} {requests : List Request}

/-- One more request adds its answer. -/
theorem answers_concat (source : Text) (requests : List Request) (request : Request) :
    answers source (requests ++ [request]) =
      answers source requests ++ ((run source requests).serve request).1.toList := by
  unfold answers run
  generalize empty source = table
  induction requests generalizing table with
  | nil => simp [answersFrom]
  | cons first requests ih =>
      rw [List.cons_append, answersFrom, answersFrom, ih, List.append_assoc]
      rfl

/-- The numbers that the requests are answered with, in the order in which they are met first, count
the symbols. -/
theorem eraseDups_answers (source : Text) (requests : List Request) :
    (answers source requests).eraseDups = List.range (run source requests).size := by
  induction requests using List.reverseRecOn with
  | nil => rfl
  | append_singleton requests request ih =>
      have hknown {id : Nat} {symbol : Symbol} (hid : (run source requests).get? id = some symbol) :
          id ∈ answers source requests := by
        rw [← List.mem_eraseDups, ih, List.mem_range]
        exact (List.getElem?_eq_some_iff.mp hid).1
      have hserves := (run source requests).serves request
      rw [answers_concat, run_concat]
      generalize (run source requests).serve request = outcome at hserves
      cases hserves with
      | named hid => exact (eraseDups_concat_of_mem (hknown hid)).trans ih
      | known _ hid => exact (eraseDups_concat_of_mem (hknown hid)).trans ih
      | new =>
          have hfresh : (run source requests).size ∉ answers source requests := by
            rw [← List.mem_eraseDups, ih, List.mem_range]
            exact Nat.lt_irrefl _
          show _ = List.range ((run source requests).push _).2.size
          rw [size_push, List.range_succ, ← ih]
          exact eraseDups_concat_of_not_mem hfresh
      | root => exact (congrArg List.eraseDups (List.append_nil _)).trans ih

theorem mem_answers {id : Nat} :
    id ∈ answers source requests ↔ id < (run source requests).size := by
  rw [← List.mem_eraseDups, eraseDups_answers, List.mem_range]

/-- What a request was answered with is a symbol that was entered for it. -/
theorem Answered.symbol {request : Request} {id : Nat}
    (h : Answered source requests request id) :
    ∃ symbol, (run source requests).get? id = some symbol ∧
      request.key? = some symbol.content.key := by
  obtain ⟨before, after, rfl, hother, hanswer⟩ := h
  obtain ⟨symbol, hid, hkey⟩ := symbol_of_answer hanswer hother
  rw [← run_concat] at hid
  have hkept := get_run hid after
  rw [List.append_assoc, List.singleton_append] at hkept
  exact ⟨symbol, hkept, hkey⟩

/-- Two requests were answered alike if they would enter a symbol for the same. -/
theorem Answered.id_eq_iff {request second : Request} {id other : Nat}
    (h : Answered source requests request id) (hother : Answered source requests second other) :
    id = other ↔ request.key? = second.key? := by
  obtain ⟨symbol, hid, hkey⟩ := h.symbol
  obtain ⟨found, hfound, hsecond⟩ := hother.symbol
  rw [(consistent_run source requests).id_eq_iff hid hfound, hkey, hsecond, Option.some_inj]

/-- A symbol refers to symbols before it, if calls are made with numbers answered before. -/
theorem Ordered.references_lt (h : Ordered source requests) {id : Nat} {symbol : Symbol}
    (hid : (run source requests).get? id = some symbol) :
    ∀ other ∈ symbol.content.references, other < id := by
  induction h generalizing id symbol with
  | nil => cases hid
  | @snoc requests request before harguments ih =>
      have hserves := (run source requests).serves request
      rw [run_concat] at hid
      generalize (run source requests).serve request = outcome at hserves hid
      cases hserves with
      | named | known | root => exact ih hid
      | new _ _ _ hreferences =>
          rcases getElem?_concat_eq_some.mp hid with hold | ⟨rfl, rfl⟩
          · exact ih hold
          · intro other hother
            rcases hreferences other hother with hlt | hargument
            · exact hlt
            · exact mem_answers.mp (harguments other hargument)

/-- Any run of requests on the table of a source leaves its symbols numbered. The numbers that
requests are answered with are 0, 1, 2 and so on, in the order in which they are met first, and a
symbol keeps its number and what it is after any further requests. Names are distinct, none occurs
in the source, and looking up a name finds the number of the symbol that has it, and nothing else. A
text that is the name of a symbol when it is entered is that symbol, and enters nothing. Texts that
are none have one number if and only if they are the same when trimmed, and calls have one if and
only if their functions and their arguments are the same. If calls are made with numbers that were
answered before, each symbol refers to symbols before it.

Whatever the stem, the source and the number to start from, a name is found in no more turns than
there are pairs of places in the source. Indices of the names, the texts and the calls, each written
when a symbol is entered, agree with the table after the run and give the same answers. -/
theorem run_numbers (source : Text) (requests : List Request) :
    (answers source requests).eraseDups = List.range (run source requests).size ∧
    (∀ id symbol more, (run source requests).get? id = some symbol →
      (run source (requests ++ more)).get? id = some symbol) ∧
    ((run source requests).symbols.map (·.name)).Nodup ∧
    (∀ symbol ∈ (run source requests).symbols, ¬ symbol.name <:+: source) ∧
    (∀ name id, (run source requests).lookup? name = some id ↔
      ∃ symbol, (run source requests).get? id = some symbol ∧ symbol.name = name) ∧
    (∀ text id symbol, (run source requests).get? id = some symbol →
      symbol.name = Text.trim text →
        (run source requests).enterExpression text = (id, run source requests)) ∧
    (∀ text id other otherId, Answered source requests (.expression text) id →
      Answered source requests (.expression other) otherId →
        (id = otherId ↔ Text.trim text = Text.trim other)) ∧
    (∀ function arguments id other others otherId,
      Answered source requests (.call function arguments) id →
        Answered source requests (.call other others) otherId →
          (id = otherId ↔ function = other ∧ arguments = others)) ∧
    (Ordered source requests → ∀ id symbol, (run source requests).get? id = some symbol →
      ∀ reference ∈ symbol.content.references, reference < id) ∧
    (∀ names : NameSupply, ∃ turns ≤ (names.source.length + 1) ^ 2,
      names.Searches turns names.take) ∧
    (IndexedTable.run source requests).Agrees (run source requests) ∧
    ∀ request, ((IndexedTable.run source requests).serve request).1 =
      ((run source requests).serve request).1 := by
  have hconsistent := consistent_run source requests
  have hagrees := IndexedTable.run_agrees source requests
  refine ⟨eraseDups_answers source requests, fun id symbol more hid => get_run hid more,
    hconsistent.regular.issued.distinct, ?_, fun name id => hconsistent.lookup_eq_iff, ?_, ?_, ?_,
    fun hordered id symbol hid => hordered.references_lt hid, NameSupply.exists_searches,
    hagrees, fun request => (hagrees.serve hconsistent.regular request).2⟩
  · intro symbol hsymbol
    exact (hconsistent.regular.generated symbol hsymbol).hidden
  · intro text id symbol hid hname
    have hlookup := hconsistent.lookup_eq_iff.mpr ⟨symbol, hid, hname⟩
    simp only [enterExpression, hlookup]
  · intro text id other otherId hanswer hother
    rw [hanswer.id_eq_iff hother]
    simp [Request.key?]
  · intro function arguments id other others otherId hanswer hother
    rw [hanswer.id_eq_iff hother]
    simp [Request.key?]

/-- The source says the first name, so the second symbol is named `__s2`. This text was entered
before as the first symbol; entered now, with blanks around it, it is the second one. -/
theorem run_numbers_renamed :
    let source := "f(__s0, b)".toList
    let requests : List Request := [.expression "__s2".toList, .expression "b".toList,
      .call "f".toList [0, 1], .expression "\tb".toList, .root 2, .call "f".toList [1, 0]]
    (∃ id, Answered source requests (.expression "b".toList) id ∧
      Answered source requests (.expression "\tb".toList) id) ∧
    (∃ id other, Answered source requests (.call "f".toList [0, 1]) id ∧
      Answered source requests (.call "f".toList [1, 0]) other ∧ id ≠ other) ∧
    Answered source requests (.expression "__s2".toList) 0 ∧
    (run source requests).enterExpression " __s2 ".toList = (1, run source requests) ∧
    Ordered source requests ∧
    ∀ id symbol, (run source requests).get? id = some symbol →
      ∀ reference ∈ symbol.content.references, reference < id := by
  intro source requests
  obtain ⟨-, -, -, -, -, hnamed, htexts, hcalls, hreferences, -⟩ := run_numbers source requests
  have hlate : Answered source requests (.expression "__s2".toList) 0 :=
    ⟨[], requests.tail, rfl, by decide +kernel, by decide +kernel⟩
  have hfirst : Answered source requests (.expression "b".toList) 1 :=
    ⟨requests.take 1, requests.drop 2, rfl, by decide +kernel, by decide +kernel⟩
  obtain ⟨id, hsecond⟩ : ∃ id, Answered source requests (.expression "\tb".toList) id :=
    ⟨1, requests.take 3, requests.drop 4, rfl, by decide +kernel, by decide +kernel⟩
  have hsame := (htexts _ _ _ _ hfirst hsecond).mpr (by decide)
  have hcall : Answered source requests (.call "f".toList [0, 1]) 2 :=
    ⟨requests.take 2, requests.drop 3, rfl, by decide +kernel, by decide +kernel⟩
  obtain ⟨other, hother⟩ : ∃ other, Answered source requests (.call "f".toList [1, 0]) other :=
    ⟨3, requests.take 5, [], rfl, by decide +kernel, by decide +kernel⟩
  have hdiffer : 2 ≠ other := by
    intro heq
    cases ((hcalls _ _ _ _ _ _ hcall hother).mp heq).2
  obtain ⟨symbol, hid, hname⟩ : ∃ symbol, (run source requests).get? 1 = some symbol ∧
      symbol.name = "__s2".toList := Option.map_eq_some_iff.mp (by decide +kernel)
  have hexpressions : Ordered source (requests.take 2) := .snoc (.snoc .nil (by decide)) (by decide)
  have hcalled : Ordered source (requests.take 3) := hexpressions.snoc (by decide +kernel)
  have hordered : Ordered source requests :=
    ((hcalled.snoc (by decide)).snoc (by decide)).snoc (by decide +kernel)
  exact ⟨⟨id, hsame ▸ hfirst, hsecond⟩, ⟨2, other, hcall, hother, hdiffer⟩, hlate,
    hnamed _ _ _ hid hname, hordered, hreferences hordered⟩

end SymbolTable

end Reckon
