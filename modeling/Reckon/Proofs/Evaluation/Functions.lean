import Reckon.Function.Standard
import Reckon.Proofs.Evaluation.Operators

/-!
# Functions keep the promises of their signatures

Each function of the language, given arguments of the classes that its signature asks for, computes
a value that the signature promises, or fails for a reason that lies in the values. A property of a
body is stated for one argument at a time; `Strict.yields_unary` and its companions carry it to
argument lists. The main statement is `Callable.keepsPromise_standard`.
-/

namespace Reckon

open List (Forall₂)

namespace Strict

variable {α : Type} {R : α → Value → Prop} {P : Value → Prop} {values : List Value} {a b c : α}

theorem yields_nullary {result : Except EvalError Value} (hvalues : Forall₂ R [] values)
    (h : Yields P result) : Yields P (nullary result values) := by
  cases hvalues
  exact h

/-- A computation from one argument. -/
theorem yields_unary {compute : Value → Except EvalError Value} (hvalues : Forall₂ R [a] values)
    (h : ∀ x, values = [x] → R a x → Yields P (compute x)) : Yields P (unary compute values) := by
  cases hvalues with
  | cons hx hrest =>
      cases hrest
      exact h _ rfl hx

/-- A computation from two arguments. -/
theorem yields_binary {compute : Value → Value → Except EvalError Value}
    (hvalues : Forall₂ R [a, b] values)
    (h : ∀ x y, values = [x, y] → R a x → R b y → Yields P (compute x y)) :
    Yields P (binary compute values) := by
  cases hvalues with
  | cons hx hrest =>
      cases hrest with
      | cons hy hrest =>
          cases hrest
          exact h _ _ rfl hx hy

/-- A computation from three arguments. -/
theorem yields_ternary {compute : Value → Value → Value → Except EvalError Value}
    (hvalues : Forall₂ R [a, b, c] values)
    (h : ∀ x y z, values = [x, y, z] → R a x → R b y → R c z → Yields P (compute x y z)) :
    Yields P (ternary compute values) := by
  cases hvalues with
  | cons hx hrest =>
      cases hrest with
      | cons hy hrest =>
          cases hrest with
          | cons hz hrest =>
              cases hrest
              exact h _ _ _ rfl hx hy hz

/-- A computation keeps the promise of a signature. -/
def Keeps (signature : Signature) (compute : Strict) : Prop :=
  ∀ groupClass values, signature.Takes groupClass values →
    Yields (signature.Promises groupClass values) (compute values)

end Strict

/-- A function keeps the promise of its signature, whatever it draws. -/
def Callable.KeepsPromise (function : Callable) : Prop :=
  ∀ groupClass arguments, function.signature.Takes groupClass arguments →
    Eval.Yields (function.signature.Promises groupClass arguments) (function.run arguments)

/-- A deterministic function keeps its promise if its computation does. -/
theorem Callable.KeepsPromise.deterministic {function : Callable} {compute : Strict}
    (hbody : function.body = .deterministic compute) (h : compute.Keeps function.signature) :
    function.KeepsPromise := by
  intro groupClass arguments htakes
  unfold Callable.run
  rw [hbody]
  exact Eval.yields_ofExcept.mpr (h groupClass arguments htakes)

namespace Numeric

open Strict

theorem keeps_constant (x : Float) : (constant x).Keeps (.fixed [] .float) := by
  intro groupClass values h
  exact yields_nullary h.operands (.ok (.float x))

theorem keeps_real (compute : Float → Float) : (real compute).Keeps (.fixed [.float] .float) := by
  intro groupClass values h
  refine yields_unary h.operands fun x _ hx => ?_
  exact (Value.yields_expectFloat hx).bind fun _ _ => .ok (.float _)

theorem keeps_realWithin (function requirement : String) (inDomain : Float → Bool)
    (compute : Float → Float) :
    (realWithin function requirement inDomain compute).Keeps (.fixed [.float] .float) := by
  intro groupClass values h
  refine yields_unary h.operands fun x _ hx => ?_
  refine (Value.yields_expectFloat hx).bind fun x _ => ?_
  exact yields_ite (fun _ => .ok (.float _)) fun _ => .error trivial

theorem keeps_real₂ (compute : Float → Float → Float) :
    (real₂ compute).Keeps (.fixed [.float, .float] .float) := by
  intro groupClass values h
  refine yields_binary h.operands fun x y _ hx hy => ?_
  exact yields_floats hx hy compute fun _ => .float _

theorem keeps_logarithm : logarithm.Keeps (.fixed [.float, .float] .float) := by
  intro groupClass values h
  refine yields_binary h.operands fun value base _ hvalue hbase => ?_
  refine (Value.yields_expectFloat hvalue).bind fun value _ => ?_
  refine (Value.yields_expectFloat hbase).bind fun base _ => ?_
  refine yields_guard trivial fun _ => ?_
  exact yields_guard trivial fun _ => .ok (.float _)

theorem keeps_roundToDigits : roundToDigits.Keeps (.fixed [.number, .integer] .float) := by
  intro groupClass values h
  refine yields_binary h.operands fun x digits _ hx hdigits => ?_
  refine (Value.yields_expectFloat hx).bind fun x _ => ?_
  refine (Value.yields_expectInteger hdigits).bind fun digits _ => ?_
  refine yields_guard trivial fun _ => ?_
  exact yields_ite (fun _ => .ok (.float _)) fun _ => .ok (.float _)

theorem keeps_toFloat : toFloat.Keeps (.fixed [.number] .float) := by
  intro groupClass values h
  refine yields_unary h.operands fun x _ hx => ?_
  exact (Value.yields_expectFloat hx).bind fun _ _ => .ok (.float _)

/-- A rounded number is an integer. -/
theorem keeps_round (rounding : Rounding) : (round rounding).Keeps (.fixed [.number] .integer) := by
  intro groupClass values h
  refine yields_unary h.operands fun x _ hx => ?_
  obtain ⟨i, rfl⟩ | ⟨x, rfl⟩ := Value.numeric_cases hx
  · exact .ok (.integer i)
  · refine (yields_integerOrOverflow (Binary64.toInt64? (rounding.compute x))).mono fun v hv => ?_
    obtain ⟨i, rfl⟩ := integer_of_kind hv
    exact .integer i

theorem takes_numeric {count : Nat} {groupClass : Option KindClass} {values : List Value}
    {found : KindClass} (h : (Callable.numericGroup count).Takes groupClass values)
    (hfound : groupClass = some found) : found = .numeric := by
  simpa [Signature.allows, Callable.numericGroup] using h.allowed found hfound

/-- A function of one number that keeps integers. -/
theorem keeps_arithmetic {compute : Value → Except EvalError Value}
    (hinteger : ∀ i, Yields (·.kind = .integer) (compute (.integer i)))
    (hfloat : ∀ x, Yields (·.kind = .float) (compute (.float x))) :
    (unary compute).Keeps (Callable.numericGroup 1) := by
  intro groupClass values h
  refine yields_unary h.operands fun x hvalues hx => ?_
  subst hvalues
  have hclass : x.kind.toClass = .numeric := takes_numeric h hx
  refine Yields.mono (P := Arithmetic [x]) ?_ fun _ =>
    promises_of_arithmetic rfl rfl (hclass ▸ hx)
  obtain ⟨i, rfl⟩ | ⟨x, rfl⟩ := Value.numeric_cases hclass
  · exact (hinteger i).mono fun _ => arithmetic_of_integer
  · exact (hfloat x).mono fun _ hkind =>
      ⟨congrArg Kind.toClass hkind, fun hall => nomatch hall (.float x) (by simp)⟩

theorem keeps_absolute : absolute.Keeps (Callable.numericGroup 1) :=
  keeps_arithmetic (fun i => yields_integerOrOverflow (Integer.abs? i)) fun _ => .ok rfl

theorem keeps_sign : sign.Keeps (Callable.numericGroup 1) :=
  keeps_arithmetic (fun _ => .ok rfl) fun _ => .ok rfl

/-- The extremum of two integers is an integer, and that of other numbers is a float. -/
theorem keeps_extremum (which : Extremum) :
    (extremum which).Keeps (Callable.numericGroup 2) := by
  intro groupClass values h
  refine yields_binary h.operands fun x y hvalues hx hy => ?_
  subst hvalues
  have hxclass : x.kind.toClass = .numeric := takes_numeric h hx
  have hyclass : y.kind.toClass = .numeric := takes_numeric h hy
  refine Yields.mono (P := Arithmetic [x, y]) ?_ fun _ =>
    promises_of_arithmetic rfl rfl (hxclass ▸ hx)
  split
  · exact .ok (arithmetic_of_integer rfl)
  · next hnot =>
      exact yields_floats hxclass hyclass _ fun _ => arithmetic_of_float (not_all_integer hnot)

/-- A clamped integer is an integer, and a clamp of other numbers is a float; an empty interval is
refused. -/
theorem keeps_clamp : clamp.Keeps (Callable.numericGroup 3) := by
  intro groupClass values h
  refine yields_ternary h.operands fun x low high hvalues hx hlow hhigh => ?_
  subst hvalues
  have hxclass : x.kind.toClass = .numeric := takes_numeric h hx
  refine Yields.mono (P := Arithmetic [x, low, high]) ?_ fun _ =>
    promises_of_arithmetic rfl rfl (hxclass ▸ hx)
  split
  · exact yields_ite (fun _ => .error trivial) fun _ => .ok (arithmetic_of_integer rfl)
  · next hnot =>
      refine (Value.yields_expectFloat hxclass).bind fun x _ => ?_
      refine (Value.yields_expectFloat (takes_numeric h hlow)).bind fun low _ => ?_
      refine (Value.yields_expectFloat (takes_numeric h hhigh)).bind fun high _ => ?_
      refine yields_guard trivial fun _ => Yields.ok (arithmetic_of_float fun hall => ?_)
      obtain ⟨a, rfl⟩ := integer_of_kind (hall _ (.head _))
      obtain ⟨b, rfl⟩ := integer_of_kind (hall _ (.tail _ (.head _)))
      obtain ⟨c, rfl⟩ := integer_of_kind (hall _ (.tail _ (.tail _ (.head _))))
      exact hnot a b c rfl rfl rfl

/-- Every constant and every function of reals keeps its promise. -/
theorem keepsPromise_reals : ∀ function ∈ Callable.reals, function.KeepsPromise := by
  have hconstant (x : Float) {names : List String} :
      (Callable.strict names (.fixed [] .float) (constant x)).KeepsPromise :=
    .deterministic rfl (keeps_constant x)
  have hreal (compute : Float → Float) {names : List String} :
      (Callable.strict names (.fixed [.float] .float) (real compute)).KeepsPromise :=
    .deterministic rfl (keeps_real compute)
  have hwithin (function requirement : String) (inDomain : Float → Bool)
      (compute : Float → Float) {names : List String} :
      (Callable.strict names (.fixed [.float] .float)
        (realWithin function requirement inDomain compute)).KeepsPromise :=
    .deterministic rfl (keeps_realWithin function requirement inDomain compute)
  have hreal₂ (compute : Float → Float → Float) {names : List String} :
      (Callable.strict names (.fixed [.float, .float] .float) (real₂ compute)).KeepsPromise :=
    .deterministic rfl (keeps_real₂ compute)
  simp only [Callable.reals, List.forall_mem_cons]
  exact ⟨hconstant _, hconstant _, hconstant _, hreal _, hreal _, hreal _, hwithin _ _ _ _,
    hwithin _ _ _ _, hreal _, hreal _, hreal _, hreal _, hreal _, hwithin _ _ _ _, hwithin _ _ _ _,
    hwithin _ _ _ _, hwithin _ _ _ _, .deterministic rfl keeps_logarithm, hreal₂ _, hreal₂ _,
    hreal₂ _, hreal _, hreal _, nofun⟩

/-- Every function that keeps or makes integers keeps its promise. -/
theorem keepsPromise_numbers : ∀ function ∈ Callable.numbers, function.KeepsPromise := by
  have hround (rounding : Rounding) {names : List String} :
      (Callable.strict names (.fixed [.number] .integer) (round rounding)).KeepsPromise :=
    .deterministic rfl (keeps_round rounding)
  simp only [Callable.numbers, List.forall_mem_cons]
  exact ⟨.deterministic rfl keeps_absolute, .deterministic rfl keeps_sign, hround _, hround _,
    hround _, hround _, .deterministic rfl keeps_roundToDigits, .deterministic rfl keeps_toFloat,
    .deterministic rfl (keeps_extremum .least), .deterministic rfl (keeps_extremum .greatest),
    .deterministic rfl keeps_clamp, nofun⟩

end Numeric

namespace Textual

open Strict

theorem keeps_ofText (compute : Text → Text) :
    (ofText compute).Keeps (.fixed [.string] .string) := by
  intro groupClass values h
  refine yields_unary h.operands fun x _ hx => ?_
  exact (Value.yields_expectString hx).bind fun _ _ => .ok (.string _)

theorem keeps_test (holds : Text → Text → Bool) :
    (test holds).Keeps (.fixed [.string, .string] .boolean) := by
  intro groupClass values h
  refine yields_binary h.operands fun x y _ hx hy => ?_
  refine (Value.yields_expectString hx).bind fun _ _ => ?_
  exact (Value.yields_expectString hy).bind fun _ _ => .ok (.boolean _)

/-- The length of a string or a byte array is an integer. -/
theorem keeps_length : length.Keeps Callable.lengthSignature := by
  intro groupClass values h
  refine yields_unary h.operands fun x _ hx => ?_
  have hclass : x.kind.toClass = .string ∨ x.kind.toClass = .byteArray := by
    simpa [Signature.allows, Callable.lengthSignature] using h.allowed _ hx
  rcases hclass with hclass | hclass
  · obtain ⟨s, rfl⟩ := Value.string_cases hclass
    exact .ok (.integer _)
  · obtain ⟨bytes, rfl⟩ := Value.byteArray_cases hclass
    exact .ok (.integer _)

/-- Two strings, and two byte arrays, are joined to one. -/
theorem keeps_concat : concat.Keeps Callable.concatSignature := by
  intro groupClass values h
  refine yields_binary h.operands fun x y _ hx hy => ?_
  have hyclass : y.kind.toClass = x.kind.toClass := Option.some.inj (hy.symm.trans hx)
  have hclass : x.kind.toClass = .string ∨ x.kind.toClass = .byteArray := by
    simpa [Signature.allows, Callable.concatSignature] using h.allowed _ hx
  rcases hclass with hclass | hclass
  · obtain ⟨s, rfl⟩ := Value.string_cases hclass
    obtain ⟨t, rfl⟩ := Value.string_cases (hyclass.trans hclass)
    exact .ok ⟨hx, fun _ h => by cases h⟩
  · obtain ⟨a, rfl⟩ := Value.byteArray_cases hclass
    obtain ⟨b, rfl⟩ := Value.byteArray_cases (hyclass.trans hclass)
    exact .ok ⟨hx, fun _ h => by cases h⟩

/-- A part of a string is a string; positions outside of it are refused. -/
theorem keeps_substring : substring.Keeps (.fixed [.string, .integer, .integer] .string) := by
  intro groupClass values h
  refine yields_ternary h.operands fun text start count _ htext hstart hcount => ?_
  refine (Value.yields_expectString htext).bind fun text _ => ?_
  refine (Value.yields_expectInteger hstart).bind fun start _ => ?_
  refine (Value.yields_expectInteger hcount).bind fun count _ => ?_
  refine yields_guard trivial fun _ => ?_
  refine yields_guard trivial fun _ => ?_
  exact yields_guard trivial fun _ => .ok (.string _)

/-- A text with replacements is a string; an empty pattern is refused. -/
theorem keeps_replace : replace.Keeps (.fixed [.string, .string, .string] .string) := by
  intro groupClass values h
  refine yields_ternary h.operands fun text pattern replacement _ htext hpattern hother => ?_
  refine (Value.yields_expectString hpattern).bind fun pattern _ => ?_
  refine yields_guard trivial fun _ => ?_
  refine (Value.yields_expectString htext).bind fun text _ => ?_
  exact (Value.yields_expectString hother).bind fun _ _ => .ok (.string _)

/-- A repeated string is a string; negative and enormous counts are refused. -/
theorem keeps_repetition : repetition.Keeps (.fixed [.string, .integer] .string) := by
  intro groupClass values h
  refine yields_binary h.operands fun text count _ htext hcount => ?_
  refine (Value.yields_expectString htext).bind fun text _ => ?_
  refine (Value.yields_expectInteger hcount).bind fun count _ => ?_
  refine yields_guard trivial fun _ => ?_
  exact yields_guard trivial fun _ => .ok (.string _)

theorem keeps_toText : toText.Keeps Callable.toTextSignature := by
  intro groupClass values h
  exact yields_unary h.operands fun _ _ _ => .ok (.string _)

/-- What a text spells as a number is a number. -/
theorem hasKind_readNumber {text : Text} {value : Value} (h : Value.readNumber? text = some value) :
    value.HasKind .number := by
  unfold Value.readNumber? at h
  split at h
  · cases h
    exact .wholeNumber _
  · obtain ⟨x, -, rfl⟩ := Option.map_eq_some_iff.mp h
    exact .realNumber x

/-- A string is read as a number or refused. -/
theorem keeps_toNumber : toNumber.Keeps (.fixed [.string] .number) := by
  intro groupClass values h
  refine yields_unary h.operands fun x _ hx => ?_
  refine (Value.yields_expectString hx).bind fun s _ => ?_
  dsimp only
  split
  · next hread => exact .ok (hasKind_readNumber hread)
  · exact .error trivial

/-- Every function of strings keeps its promise. -/
theorem keepsPromise_strings : ∀ function ∈ Callable.strings, function.KeepsPromise := by
  have htext (compute : Text → Text) {names : List String} :
      (Callable.strict names (.fixed [.string] .string) (ofText compute)).KeepsPromise :=
    .deterministic rfl (keeps_ofText compute)
  have htest (holds : Text → Text → Bool) {names : List String} :
      (Callable.strict names (.fixed [.string, .string] .boolean) (test holds)).KeepsPromise :=
    .deterministic rfl (keeps_test holds)
  simp only [Callable.strings, List.forall_mem_cons]
  exact ⟨.deterministic rfl keeps_length, htext _, htext _, htext _,
    .deterministic rfl keeps_concat, htest _, htest _, htest _,
    .deterministic rfl keeps_substring, .deterministic rfl keeps_replace,
    .deterministic rfl keeps_repetition, .deterministic rfl keeps_toText,
    .deterministic rfl keeps_toNumber, nofun⟩

end Textual

namespace Bytewise

open Strict

theorem keeps_hex : hex.Keeps (.fixed [.byteArray] .string) := by
  intro groupClass values h
  refine yields_unary h.operands fun x _ hx => ?_
  exact (Value.yields_expectBytes hx).bind fun _ _ => .ok (.string _)

theorem keeps_ofString : ofString.Keeps (.fixed [.string] .byteArray) := by
  intro groupClass values h
  refine yields_unary h.operands fun x _ hx => ?_
  exact (Value.yields_expectString hx).bind fun _ _ => .ok (.byteArray _)

theorem keeps_toText : toText.Keeps (.fixed [.byteArray] .string) := by
  intro groupClass values h
  refine yields_unary h.operands fun x _ hx => ?_
  refine (Value.yields_expectBytes hx).bind fun bytes _ => ?_
  split
  · exact .ok (.string _)
  · exact .error trivial

/-- A byte is an integer; positions outside of the byte array are refused. -/
theorem keeps_byteAt : byteAt.Keeps (.fixed [.byteArray, .integer] .integer) := by
  intro groupClass values h
  refine yields_binary h.operands fun bytes index _ hbytes hindex => ?_
  refine (Value.yields_expectBytes hbytes).bind fun bytes _ => ?_
  refine (Value.yields_expectInteger hindex).bind fun index _ => ?_
  refine yields_guard trivial fun _ => ?_
  dsimp only
  split
  · exact .ok (.integer _)
  · exact .error trivial

/-- Every function of byte arrays keeps its promise. -/
theorem keepsPromise_byteArrays : ∀ function ∈ Callable.byteArrays, function.KeepsPromise := by
  simp only [Callable.byteArrays, List.forall_mem_cons]
  exact ⟨.deterministic rfl keeps_hex, .deterministic rfl keeps_ofString,
    .deterministic rfl keeps_toText, .deterministic rfl keeps_byteAt, nofun⟩

end Bytewise

namespace Random

/-- A word in the zone of a bound can be drawn. -/
theorem yields_accepted (bound : UInt64) (tries : Nat) :
    Eval.Yields (fun _ => True) (accepted bound tries) := by
  induction tries with
  | zero => exact Eval.yields_pure trivial
  | succ tries ih =>
      refine Eval.yields_draw.bind fun word _ => ?_
      split
      · exact Eval.yields_pure trivial
      · exact ih

theorem yields_natural (bound : Nat) : Eval.Yields (fun _ => True) (natural bound) :=
  (yields_accepted _ _).bind fun _ _ => Eval.yields_pure trivial

theorem keepsPromise_fraction {names : List String} :
    (Callable.drawing names (.fixed [] .float) fraction).KeepsPromise := by
  intro groupClass arguments h
  cases h.operands
  exact Eval.yields_draw.bind fun _ _ => Eval.yields_pure (.float _)

/-- A draw below a bound is an integer; a bound that is not positive is refused. -/
theorem keepsPromise_belowBound {names : List String} :
    (Callable.drawing names (.fixed [.integer] .integer) belowBound).KeepsPromise := by
  intro groupClass arguments h
  cases h.operands with
  | cons hbound hrest =>
      cases hrest
      refine (Eval.yields_ofExcept.mpr (Value.yields_expectInteger hbound)).bind fun bound _ => ?_
      refine Eval.yields_guard trivial fun _ => ?_
      exact (yields_natural _).bind fun _ _ => Eval.yields_pure (.integer _)

/-- A draw from a range is an integer; an empty range is refused. -/
theorem keepsPromise_inRange {names : List String} :
    (Callable.drawing names (.fixed [.integer, .integer] .integer) inRange).KeepsPromise := by
  intro groupClass arguments h
  cases h.operands with
  | cons hlow hrest =>
      cases hrest with
      | cons hhigh hrest =>
          cases hrest
          refine (Eval.yields_ofExcept.mpr (Value.yields_expectInteger hlow)).bind fun low _ => ?_
          refine (Eval.yields_ofExcept.mpr (Value.yields_expectInteger hhigh)).bind fun high _ => ?_
          refine Eval.yields_guard trivial fun _ => ?_
          exact (yields_natural _).bind fun _ _ => Eval.yields_pure (.integer _)

/-- Every function that draws keeps its promise. -/
theorem keepsPromise_randoms : ∀ function ∈ Callable.randoms, function.KeepsPromise := by
  simp only [Callable.randoms, List.forall_mem_cons]
  exact ⟨keepsPromise_fraction, keepsPromise_belowBound, keepsPromise_inRange, nofun⟩

end Random

namespace Callable

/-- The choice between two known values is one of them. -/
theorem keepsPromise_conditional : conditional.KeepsPromise := by
  intro groupClass arguments h
  refine Eval.yields_ofExcept.mpr ?_
  refine Strict.yields_ternary h.operands fun condition yes no hvalues hcondition hyes hno => ?_
  subst hvalues
  refine (Value.yields_expectBool hcondition).bind fun b _ => ?_
  cases b with
  | true => exact .ok ⟨hyes, fun hall _ => hall yes (.head _)⟩
  | false => exact .ok ⟨hno, fun hall _ => hall no (.tail _ (.head _))⟩

/-- Every function of the language keeps the promise of its signature. -/
theorem keepsPromise_standard : ∀ function ∈ standard, function.KeepsPromise := by
  intro function h
  simp only [standard, List.mem_append, List.mem_singleton] at h
  obtain ((((h | h) | h) | h) | h) | rfl := h
  · exact Numeric.keepsPromise_reals function h
  · exact Numeric.keepsPromise_numbers function h
  · exact Textual.keepsPromise_strings function h
  · exact Bytewise.keepsPromise_byteArrays function h
  · exact Random.keepsPromise_randoms function h
  · exact keepsPromise_conditional

end Callable

end Reckon
