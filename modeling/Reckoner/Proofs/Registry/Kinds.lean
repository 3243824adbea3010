import Reckoner.Proofs.Postfix.Acceptance
import Reckoner.Proofs.Registry.Invariants
import Reckoner.Proofs.Token.LexicalGrammar

set_option autoImplicit false

/-!
# Symbols and names are told apart by their characters

A proposal passes its checks exactly if a text can mention what it proposes: the symbol
of an operator and the name of a function are read as one token each.  It is registered if
besides it can be written.  No spelling is both, so a registry never has an operator where a
text asks for a function or the other way round, and what is reported as undefined is not in
the registry at all.
-/

namespace Reckoner

/-! ## What a text can mention -/

/-- No text is a symbol and a name. -/
theorem Spelling.not_wellFormed_name {s : String} (h : (Spelling.operator s.toList).WellFormed) :
    ¬ (Spelling.name s.toList).WellFormed := by
  obtain ⟨hfilled, hoperator⟩ := h
  rintro ⟨-, hletter⟩
  obtain ⟨c, hc⟩ := List.exists_mem_of_ne_nil _ hfilled
  have hnot := isAlpha_of_isOperatorChar (hoperator c hc)
  rw [hletter c hc] at hnot
  cases hnot

namespace Draft

/-- The spelling that mentions a draft in a text. -/
def spelling : Draft → Spelling
  | .operator symbol _ _ => .operator symbol.toList
  | .function name _ _ => .name name.toList

/-- A draft that a text can mention; an operator has a precedence of at least 1. -/
structure WellFormed (d : Draft) : Prop where
  spelling : d.spelling.WellFormed
  precedence : ∀ symbol p c, d = .operator symbol p c → 1 ≤ p

/-- The proposal of a draft. -/
def proposal : Draft → Proposal
  | .operator symbol p c => .operator (.text symbol) (.int p) (some c)
  | .function name n c => .function (.text name) (.int n) (some c)

end Draft

namespace Definition

/-- The draft of a definition; its callback has been written. -/
def draft : Definition → Draft
  | .operator o => .operator o.symbol o.precedence o.callback.callable
  | .function f => .function f.name f.arity f.callback.callable

/-- The spelling that mentions a definition in a text. -/
def spelling (d : Definition) : Spelling := d.draft.spelling

/-- The proposal of a definition. -/
def proposal (d : Definition) : Proposal := d.draft.proposal

/-- Whether a definition is one of an operator. -/
def isOperator : Definition → Bool
  | .operator _ => true
  | .function _ => false

/-- A definition that a text can mention and that can be written. -/
structure WellFormed (d : Definition) : Prop where
  draft : d.draft.WellFormed
  writable : Number.Writable d.draft.number

theorem WellFormed.spelling {d : Definition} (h : d.WellFormed) : d.spelling.WellFormed :=
  h.draft.spelling

theorem chars_spelling (d : Definition) : d.spelling.chars = d.name.toList := by
  cases d <;> rfl

theorem lexeme_operator (o : InfixOperator) :
    (operator o).spelling.lexeme = .operator o.symbol :=
  congrArg Lexeme.operator String.ofList_toList

theorem lexeme_function (f : NamedFunction) : (function f).spelling.lexeme = .name f.name :=
  congrArg Lexeme.name String.ofList_toList

theorem eq_spelling_of_lexeme {s : Spelling} {d : Definition} (h : s.lexeme = d.spelling.lexeme) :
    s = d.spelling := by
  cases d with
  | operator o =>
    cases s with
    | operator cs =>
      have hchars : String.ofList cs = String.ofList o.symbol.toList := Lexeme.operator.inj h
      rw [String.ofList_injective hchars]
      rfl
    | _ => cases h
  | function f =>
    cases s with
    | name cs =>
      have hchars : String.ofList cs = String.ofList f.name.toList := Lexeme.name.inj h
      rw [String.ofList_injective hchars]
      rfl
    | _ => cases h

/-- Definitions of one name are of one kind, if a text can mention them. -/
theorem isOperator_eq_of_name {d e : Definition} (hd : d.spelling.WellFormed)
    (he : e.spelling.WellFormed) (hname : d.name = e.name) : d.isOperator = e.isOperator := by
  cases d with
  | operator o =>
    cases e with
    | operator p => rfl
    | function g =>
      have hsame : o.symbol = g.name := hname
      exact absurd he (Spelling.not_wellFormed_name (hsame ▸ hd))
  | function f =>
    cases e with
    | operator p =>
      have hsame : f.name = p.symbol := hname
      exact absurd hd (Spelling.not_wellFormed_name (hsame ▸ he))
    | function g => rfl

end Definition

/-! ## Tokens -/

namespace Token

/-- A spelling by itself is one token. -/
theorem tokenize_chars {s : Spelling} (hs : s.WellFormed) :
    tokenize (String.ofList s.chars) = .ok [⟨s.lexeme, 0⟩] := by
  have hlayout : (Layout.mk [⟨[], s⟩] []).WellFormed := by
    refine ⟨fun p hp => ?_, fun p hp c hc => ?_, fun c hc => (nomatch hc), trivial⟩
    · rw [List.mem_singleton.mp hp]
      exact hs
    · rw [List.mem_singleton.mp hp] at hc
      cases hc
  have hchars : (Layout.mk [⟨[], s⟩] []).chars = s.chars := by
    simp [Layout.chars, Layout.pieceChars]
  have hdivides : (Layout.mk [⟨[], s⟩] []).Divides (String.ofList s.chars) :=
    ⟨hlayout, hchars.trans String.toList_ofList.symm⟩
  exact hdivides.tokenize_eq

/-- A token of a text that mentions a definition is spelled as the grammar has it. -/
theorem wellFormed_spelling_of_mem {source : String} {ts : List Token} {t : Token} {d : Definition}
    (h : tokenize source = .ok ts) (ht : t ∈ ts) (hlexeme : t.lexeme = d.spelling.lexeme) :
    d.spelling.WellFormed := by
  obtain ⟨l, hl, -, rfl⟩ := exists_layout_of_scan h
  have hmem := List.mem_map_of_mem (f := Token.lexeme) ht
  rw [Layout.lexeme_pieceTokens] at hmem
  obtain ⟨p, hp, hsame⟩ := List.mem_map.mp hmem
  rw [← Definition.eq_spelling_of_lexeme (hsame.trans hlexeme)]
  exact hl.spellings p hp

/-- The name of a definition is one token by itself, which mentions the definition, if it
is spelled as the grammar has it. -/
theorem tokenize_name_iff (d : Definition) :
    tokenize d.name = .ok [⟨d.spelling.lexeme, 0⟩] ↔ d.spelling.WellFormed := by
  constructor
  · exact fun h => wellFormed_spelling_of_mem h (List.mem_singleton_self _) rfl
  · intro hs
    have htokens := tokenize_chars hs
    rwa [Definition.chars_spelling, String.ofList_toList] at htokens

/-- A text is one operator if it is spelled as one. -/
theorem tokenize_operator_iff {s : String} :
    tokenize s = .ok [⟨.operator s, 0⟩] ↔ (Spelling.operator s.toList).WellFormed := by
  have htokens := tokenize_name_iff (.operator ⟨s, 1, ⟨"", fun _ => .ok .absent⟩⟩)
  rwa [Definition.lexeme_operator] at htokens

/-- A text is one name if it is spelled as one. -/
theorem tokenize_function_iff {s : String} :
    tokenize s = .ok [⟨.name s, 0⟩] ↔ (Spelling.name s.toList).WellFormed := by
  have htokens := tokenize_name_iff (.function ⟨s, 0, ⟨"", fun _ => .ok .absent⟩⟩)
  rwa [Definition.lexeme_function] at htokens

end Token

/-! ## Checks -/

/-- A proposal passes its checks if it is one of a draft that a text can mention. -/
theorem Proposal.draft_eq_ok_iff {p : Proposal} {d : Draft} :
    p.draft = .ok d ↔ p = d.proposal ∧ d.WellFormed := by
  constructor
  · intro h
    cases p with
    | operator symbol precedence callable =>
      obtain ⟨s, n, c, rfl, hsymbol, rfl, hpositive, rfl⟩ := checkedOperator_eq_ok_iff.mp h
      obtain ⟨rfl, hspelling⟩ := checkedSymbol_eq_ok_iff.mp hsymbol
      refine ⟨rfl, hspelling, ?_⟩
      rintro _ _ _ ⟨⟩
      exact hpositive
    | function name arity callable =>
      obtain ⟨s, n, c, rfl, hname, rfl, rfl⟩ := checkedFunction_eq_ok_iff.mp h
      obtain ⟨rfl, hspelling⟩ := checkedName_eq_ok_iff.mp hname
      exact ⟨rfl, hspelling, fun _ _ _ ho => (nomatch ho)⟩
  · rintro ⟨rfl, hd⟩
    cases d with
    | operator s n c =>
      exact checkedOperator_eq_ok_iff.mpr ⟨s, n, c, rfl,
        checkedSymbol_eq_ok_iff.mpr ⟨rfl, hd.spelling⟩, rfl, hd.precedence s n c rfl, rfl⟩
    | function s n c =>
      exact checkedFunction_eq_ok_iff.mpr ⟨s, n, c, rfl,
        checkedName_eq_ok_iff.mpr ⟨rfl, hd.spelling⟩, rfl, rfl⟩

/-- A draft whose callable is written like this is the draft of what it is written as. -/
theorem Draft.draft_withForm {d : Draft} {form : String} (h : d.callable.form = .ok form) :
    (d.withForm form).draft = d := by
  cases d with
  | operator symbol p c => cases c; cases h; rfl
  | function name n c => cases c; cases h; rfl

/-- A draft is written as the definition that it is the draft of, if its number does not have
too many digits. -/
theorem Draft.written_eq_ok_iff {d : Draft} {e : Definition} :
    d.written = .ok e ↔ d = e.draft ∧ Number.Writable d.number := by
  constructor
  · intro h
    unfold written at h
    by_cases hnumber : Number.Writable d.number
    · rw [Number.written_of_writable (n := d.number) hnumber] at h
      obtain ⟨form, hform, rfl⟩ := Proposal.exists_of_map_eq_ok h
      exact ⟨(draft_withForm hform).symm, hnumber⟩
    · rw [Number.written_of_not_writable (n := d.number) hnumber] at h
      cases h
  · rintro ⟨rfl, hnumber⟩
    rw [written, Number.written_of_writable (n := e.draft.number) hnumber]
    cases e <;> rfl

/-- A proposal passes its checks and can be written if it is one of a definition that a text
can mention and that can be written. -/
theorem Proposal.checked_eq_ok_iff {p : Proposal} {d : Definition} :
    p.checked = .ok d ↔ p = d.proposal ∧ d.WellFormed := by
  constructor
  · intro h
    unfold checked at h
    cases hdraft : p.draft with
    | error e => rw [hdraft] at h; cases h
    | ok draft =>
      simp only [hdraft] at h
      cases hwritten : draft.written with
      | error e => rw [hwritten] at h; cases h
      | ok d' =>
        rw [hwritten] at h
        cases h
        obtain ⟨rfl, hnumber⟩ := Draft.written_eq_ok_iff.mp hwritten
        obtain ⟨rfl, hd⟩ := draft_eq_ok_iff.mp hdraft
        exact ⟨rfl, hd, hnumber⟩
  · rintro ⟨rfl, hd⟩
    have hdraft : d.proposal.draft = .ok d.draft := draft_eq_ok_iff.mpr ⟨rfl, hd.draft⟩
    simp only [checked, hdraft, Draft.written_eq_ok_iff.mpr ⟨rfl, hd.writable⟩]

namespace Registry

variable {r : Registry}

/-- An open registry takes the proposals of drafts that a text can mention and that can be
written. -/
theorem exists_register_iff (hopen : r.frozen = false) (p : Proposal) :
    (∃ r' made, r.register p = .ok (r', made)) ↔
      ∃ d : Draft, p = d.proposal ∧ d.WellFormed ∧ Number.Writable d.number ∧
        ∃ form, d.callable.form = .ok form := by
  constructor
  · rintro ⟨r', made, h⟩
    obtain ⟨hproposal, hmade⟩ := Proposal.checked_eq_ok_iff.mp (register_eq_ok_iff.mp h).1
    refine ⟨_, hproposal, hmade.draft, hmade.writable, made.definition.callback.form, ?_⟩
    cases made.definition <;> rfl
  · rintro ⟨d, rfl, hd, hnumber, form, hform⟩
    have hdraft := Draft.draft_withForm hform
    have hwritten : (d.withForm form).WellFormed := by
      constructor <;> rwa [hdraft]
    have hproposal : d.proposal = (d.withForm form).proposal := by
      rw [Definition.proposal, hdraft]
    exact ⟨_, _, register_of_open hopen
      (Proposal.checked_eq_ok_iff.mpr ⟨hproposal, hwritten⟩)⟩

/-! ## Well-formed registries -/

/-- Every definition can be mentioned and written. -/
def WellFormed (r : Registry) : Prop := ∀ d ∈ r.entries, d.WellFormed

theorem kept_wellFormed : Kept WellFormed where
  empty d hd := nomatch hd
  freeze _ h := h
  insert r p d hchecked h e he := by
    rcases mem_put he with rfl | hold
    · exact (Proposal.checked_eq_ok_iff.mp hchecked).2
    · exact h e hold

/-- What is found under the name of a definition that a text can mention is one of its
kind. -/
theorem WellFormed.isOperator_of_lookup (hr : r.WellFormed) {d e : Definition}
    (hd : d.spelling.WellFormed) (h : r.lookup d.name = some e) : d.isOperator = e.isOperator :=
  Definition.isOperator_eq_of_name hd (hr e (mem_of_lookup h)).spelling (name_of_lookup h).symm

/-- A registration replaces a definition of its own kind only. -/
theorem WellFormed.isOperator_of_replaced (hr : r.WellFormed) (ps : List Proposal)
    {made : Registration} (hmade : made ∈ (r.enrol ps).made) {old : Definition}
    (hold : made.replaced = some old) : made.definition.isOperator = old.isOperator := by
  induction ps generalizing r with
  | nil => cases hmade
  | cons p ps ih =>
    cases hregister : r.register p with
    | error e => rw [enrol_of_refused hregister] at hmade; cases hmade
    | ok result =>
      obtain ⟨r', first⟩ := result
      obtain ⟨hchecked, -, rfl, hreplaced⟩ := register_eq_ok_iff.mp hregister
      rw [enrol_of_registered hregister] at hmade
      rcases List.mem_cons.mp hmade with rfl | hlater
      · exact hr.isOperator_of_lookup (Proposal.checked_eq_ok_iff.mp hchecked).2.spelling
          (hreplaced.symm.trans hold)
      · exact ih (kept_wellFormed.insert r p _ hchecked hr) hlater

/-- A symbol of a text that is no operator is not in the registry. -/
theorem WellFormed.lookup_of_operator (hr : r.WellFormed) {source symbol : String}
    {ts : List Token} {t : Token} (htokens : Token.tokenize source = .ok ts) (ht : t ∈ ts)
    (hlexeme : t.lexeme = .operator symbol) (h : ∀ o, r.operator symbol ≠ .ok o) :
    r.lookup symbol = none := by
  cases hlookup : r.lookup symbol with
  | none => rfl
  | some d =>
    -- whatever was found has the kind of an operator of that symbol
    have hspelled := Definition.lexeme_operator ⟨symbol, 1, d.callback⟩
    have hspelling := Token.wellFormed_spelling_of_mem htokens ht (hlexeme.trans hspelled.symm)
    have hkind := hr.isOperator_of_lookup hspelling hlookup
    cases d with
    | operator o => exact absurd (operator_eq_ok_iff.mpr hlookup) (h o)
    | function f => cases hkind

/-- A name of a text that is no function is not in the registry. -/
theorem WellFormed.lookup_of_function (hr : r.WellFormed) {source name : String}
    {ts : List Token} {t : Token} (htokens : Token.tokenize source = .ok ts) (ht : t ∈ ts)
    (hlexeme : t.lexeme = .name name) (h : ∀ f, r.function name ≠ .ok f) :
    r.lookup name = none := by
  cases hlookup : r.lookup name with
  | none => rfl
  | some d =>
    have hspelled := Definition.lexeme_function ⟨name, 0, d.callback⟩
    have hspelling := Token.wellFormed_spelling_of_mem htokens ht (hlexeme.trans hspelled.symm)
    have hkind := hr.isOperator_of_lookup hspelling hlookup
    cases d with
    | operator o => cases hkind
    | function f => exact absurd (function_eq_ok_iff.mpr hlookup) (h f)

end Registry

/-! ## Undefined symbols and names -/

namespace Postfix

/-- What a conversion reports as undefined is a symbol or a name among the tokens, and not
an operator, or not a function. -/
theorem undefined_of_ofTokens {r : Registry} {ts : List Token} {e : StructureError}
    (h : ofTokens r ts = .error e) :
    (∀ symbol, e = .undefinedOperator symbol →
      (∃ t ∈ ts, t.lexeme = .operator symbol) ∧ ∀ o, r.operator symbol ≠ .ok o) ∧
    ∀ name, e = .undefinedFunction name →
      (∃ t ∈ ts, t.lexeme = .name name) ∧ ∀ f, r.function name ≠ .ok f := by
  have hfollows := convert_follows r ts
  rw [convert_eq_ofTokens, h] at hfollows
  -- an undefined operator offends where it stands, an undefined name once it is released
  refine ⟨?_, ?_⟩
  · rintro symbol rfl
    rcases hfollows with hfirst | ⟨name, -, -, hname⟩
    · cases hfirst with
      | token _ hoffends =>
        cases hoffends with
        | operator hundefined =>
          exact ⟨⟨_, List.mem_append_right _ List.mem_cons_self, rfl⟩, hundefined⟩
    · cases hname
  · rintro name rfl
    rcases hfollows with hfirst | ⟨_, hmem, hundefined, hname⟩
    · cases hfirst with
      | token _ hoffends => cases hoffends
    · cases hname
      exact ⟨hmem, hundefined⟩

end Postfix

namespace Registry

variable {r : Registry}

/-- What is reported as undefined is not in the registry. -/
theorem WellFormed.lookup_of_undefined (hr : r.WellFormed) {source : String} {f : Failure}
    (h : r.postfixOf source = .error f) (htitle : f.category.title = "UndefinedSymbolError") :
    ∃ name, (f = .structural (.undefinedOperator name) ∨
      f = .structural (.undefinedFunction name)) ∧ r.lookup name = none := by
  unfold postfixOf at h
  cases htokens : Token.tokenize source with
  | error e =>
    rw [htokens] at h
    cases h
    cases e <;> simp [Failure.category, LexError.category, Category.title] at htitle
  | ok ts =>
    simp only [htokens] at h
    cases hnodes : Postfix.ofTokens r ts with
    | ok nodes => rw [hnodes] at h; cases h
    | error e =>
      rw [hnodes] at h
      cases h
      obtain ⟨hoperator, hfunction⟩ := Postfix.undefined_of_ofTokens hnodes
      cases e with
      | undefinedOperator symbol =>
        obtain ⟨⟨t, ht, hlexeme⟩, hundefined⟩ := hoperator symbol rfl
        exact ⟨symbol, .inl rfl, hr.lookup_of_operator htokens ht hlexeme hundefined⟩
      | undefinedFunction name =>
        obtain ⟨⟨t, ht, hlexeme⟩, hundefined⟩ := hfunction name rfl
        exact ⟨name, .inr rfl, hr.lookup_of_function htokens ht hlexeme hundefined⟩
      | _ => simp [Failure.category, StructureError.category, Category.title] at htitle

/-- An open registry takes an operator exactly if its symbol is read as one operator, its
precedence is positive, and it can be written; and a function exactly if its name is read as
one name, its arity is not negative, and it can be written.  So in every registry that steps
lead to, definitions are found under their own names, which are symbols for operators and
names for functions; no registration replaces a definition of the other kind; and what is
reported as undefined is not in the registry. -/
theorem register_iff_tokenize :
    (∀ (r : Registry) (s : String) (p : Int) (c : Callable), r.frozen = false →
      ((∃ r' made, r.register (.operator (.text s) (.int p) (some c)) = .ok (r', made)) ↔
        Token.tokenize s = .ok [⟨.operator s, 0⟩] ∧
          0 < p ∧ Number.Writable p.natAbs ∧ ∃ form, c.form = .ok form)) ∧
    (∀ (r : Registry) (s : String) (n : Int) (c : Callable), r.frozen = false →
      ((∃ r' made, r.register (.function (.text s) (.int n) (some c)) = .ok (r', made)) ↔
        Token.tokenize s = .ok [⟨.name s, 0⟩] ∧
          0 ≤ n ∧ Number.Writable n.natAbs ∧ ∃ form, c.form = .ok form)) ∧
    ∀ r : Registry, r.Reachable →
      (∀ key d, r.lookup key = some d → d.name = key ∧ d.WellFormed) ∧
      (∀ ps made old, made ∈ (r.enrol ps).made → made.replaced = some old →
        made.definition.isOperator = old.isOperator) ∧
      ∀ source f, r.postfixOf source = .error f → f.category.title = "UndefinedSymbolError" →
        ∃ name, (f = .structural (.undefinedOperator name) ∨
          f = .structural (.undefinedFunction name)) ∧ r.lookup name = none := by
  refine ⟨fun r s p c hopen => ?_, fun r s n c hopen => ?_, fun r hreachable => ?_⟩
  · rw [exists_register_iff hopen, Token.tokenize_operator_iff]
    constructor
    · rintro ⟨d, hproposal, hd, hnumber, hform⟩
      cases d with
      | operator symbol k c' =>
        cases hproposal
        exact ⟨hd.spelling, Int.ofNat_lt.mpr (hd.precedence _ _ _ rfl), hnumber, hform⟩
      | function => cases hproposal
    · rintro ⟨hspelling, hpositive, hnumber, hform⟩
      obtain ⟨k, rfl⟩ := Int.eq_ofNat_of_zero_le (Int.le_of_lt hpositive)
      refine ⟨.operator s k c, rfl, ⟨hspelling, ?_⟩, hnumber, hform⟩
      rintro _ _ _ ⟨⟩
      exact Int.ofNat_lt.mp hpositive
  · rw [exists_register_iff hopen, Token.tokenize_function_iff]
    constructor
    · rintro ⟨d, hproposal, hd, hnumber, hform⟩
      cases d with
      | operator => cases hproposal
      | function name k c' =>
        cases hproposal
        exact ⟨hd.spelling, Int.natCast_nonneg k, hnumber, hform⟩
    · rintro ⟨hspelling, hnonnegative, hnumber, hform⟩
      obtain ⟨k, rfl⟩ := Int.eq_ofNat_of_zero_le hnonnegative
      exact ⟨.function s k c, rfl, ⟨hspelling, fun _ _ _ ho => (nomatch ho)⟩, hnumber, hform⟩
  · have hr : r.WellFormed := kept_wellFormed.reachable hreachable
    exact ⟨fun key d h => ⟨name_of_lookup h, hr d (mem_of_lookup h)⟩,
      fun ps made old hmade hold => hr.isOperator_of_replaced ps hmade hold,
      fun source f h htitle => hr.lookup_of_undefined h htitle⟩

/-- Two signs are a symbol, a letter and a digit are no name; of the two signs in `1 ++ 2`
the standard definitions know nothing; and a symbol does not help an operator whose callable
cannot be written. -/
theorem register_signs :
    (∃ r' made, empty.register
      (.operator (.text "+-") (.int 1) (some (Standard.constant 0).callable)) =
        .ok (r', made)) ∧
    Token.tokenize "a1" ≠ .ok [⟨.name "a1", 0⟩] ∧
    Standard.registry.postfixOf "1 ++ 2" = .error (.structural (.undefinedOperator "++")) ∧
    Standard.registry.lookup "++" = none ∧
    ¬ ∃ r' made, empty.register
      (.operator (.text "+-") (.int 1) (some ⟨.error .integerTooLarge, fun _ => .ok .absent⟩)) =
        .ok (r', made) := by
  obtain ⟨hoperator, hfunction, hreachable⟩ := register_iff_tokenize
  have hsigns : Token.tokenize "+-" = .ok [⟨.operator "+-", 0⟩] :=
    Token.tokenize_chars (s := .operator ['+', '-']) (by decide)
  have hundefined : Standard.registry.postfixOf "1 ++ 2" =
      .error (.structural (.undefinedOperator "++")) := by
    have htokens := Token.scan_chars (l := ⟨[⟨[], .numeral ⟨none, ['1'], none⟩⟩,
      ⟨[' '], .operator ['+', '+']⟩, ⟨[' '], .numeral ⟨none, ['2'], none⟩⟩], []⟩)
      (by decide +kernel) 0
    have hsource : Token.tokenize "1 ++ 2" = _ := htokens
    rw [postfixOf, hsource]
    rfl
  refine ⟨(hoperator empty "+-" 1 _ rfl).mpr ⟨hsigns, by decide, by decide, _, rfl⟩,
    fun htokens => ?_, hundefined, ?_, fun h => ?_⟩
  · obtain ⟨r', made, h⟩ := (hfunction empty "a1" 0 (Standard.constant 0).callable rfl).mpr
      ⟨htokens, by decide, by decide, _, rfl⟩
    have hrefused : empty.register
        (.function (.text "a1") (.int 0) (some (Standard.constant 0).callable)) =
      .error (RegistrationError.nameCharacter '1' "a1").refusal := rfl
    rw [hrefused] at h
    cases h
  · have hr : Standard.registry.Reachable := ⟨[("a", .register Standard.proposals)], "a", rfl⟩
    obtain ⟨name, hname, hlookup⟩ := (hreachable _ hr).2.2 _ _ hundefined rfl
    rcases hname with hname | hname
    · cases hname
      exact hlookup
    · cases hname
  · obtain ⟨-, -, -, form, hform⟩ := (hoperator empty "+-" 1 _ rfl).mp h
    cases hform

end Registry

end Reckoner
