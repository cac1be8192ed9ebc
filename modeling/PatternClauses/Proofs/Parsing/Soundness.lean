import PatternClauses.Proofs.Parsing.Stream

/-!
# What a reader accepts is in the grammar

Every successful run of a reader takes tokens that the grammar derives for its answer.  The
readers that loop are described by what they add behind the tokens that came before.
-/

namespace PatternClauses.Reader

open TokenStream Grammar

/-- A reader without names to bind: the tokens taken for an answer mean the answer. -/
def Spells (reader : Reader α) (meaning : List Token → α → Prop) : Prop :=
  ∀ start value stop, reader.run start = .ok value stop →
    ∃ taken, Takes start taken [] stop ∧ meaning taken value

/-- The tokens taken for an answer mean the answer, its names are bound, and the names bound so
far keep a property. -/
def Reads (kept : List String → Prop) (reader : Reader α) (meaning : List Token → α → Prop)
    (names : α → List String) : Prop :=
  ∀ start value stop, reader.run start = .ok value stop →
    ∃ taken, Takes start taken (names value) stop ∧ meaning taken value ∧
      (kept start.boundNames → kept stop.boundNames)

theorem Spells.reads {reader : Reader α} {meaning : List Token → α → Prop}
    (spells : Spells reader meaning) (kept : List String → Prop) :
    Reads kept reader meaning fun _ => [] := by
  intro start value stop run
  rcases spells start value stop run with ⟨taken, takes, means⟩
  exact ⟨taken, takes, means, fun before => takes.names ▸ before⟩

theorem spells_unexpected (expected : Expected) (meaning : List Token → α → Prop) :
    Spells (unexpected expected) meaning := by
  intro start value stop run
  exact absurd run (unexpected_ne_ok expected start stop value)

/-! ## Lists in parentheses -/

section

variable {kept : List String → Prop} {item : Reader α} {meaning : List Token → α → Prop}
  {names : α → List String}

def Closed (meaning : List Token → α → Prop) (taken : List Token) (values : List α) : Prop :=
  ∃ parts : List (List Token × α), (∀ part ∈ parts, meaning part.1 part.2) ∧
    values = parts.map (·.2) ∧ taken = [Token.comma].intercalate (parts.map (·.1)) ++ [.rightParen]

theorem reads_items (reads : Reads kept item meaning names) (expected : Expected) (budget : Nat) :
    Reads kept (items item expected budget)
      (fun taken values => values ≠ [] ∧ Closed meaning taken values) (·.flatMap names) := by
  induction budget with
  | zero => exact fun _ _ _ run => absurd run (unexpected_ne_ok _ _ _ _)
  | succ budget induction =>
    intro start values stop run
    rw [items, bind_eq_ok_iff] at run
    rcases run with ⟨first, middle, one, run⟩
    rcases reads start first middle one with ⟨taken, takes, means, keeps⟩
    simp only [next?_bind] at run
    split at run
    · rename_i comma
      simp only [advance_bind, next?_bind] at run
      split at run
      · exact absurd run (unexpected_ne_ok _ _ _ _)
      · rw [bind_eq_ok_iff] at run
        rcases run with ⟨rest, last, others, done⟩
        cases done
        rcases induction _ _ _ others with
          ⟨more, takesMore, ⟨nonempty, parts, each, rfl, rfl⟩, keepsMore⟩
        have all := (takes.trans (.advance comma)).trans takesMore
        rw [List.append_nil] at all
        refine ⟨_, all, ⟨List.cons_ne_nil _ _, (taken, first) :: parts, ?_, rfl, ?_⟩,
          fun before => keepsMore (by rw [boundNames_advance]; exact keeps before)⟩
        · exact List.forall_mem_cons.mpr ⟨means, each⟩
        · cases parts with
          | nil => exact absurd rfl nonempty
          | cons part parts => simp
    · rename_i parenthesis
      cases run
      refine ⟨_, takes.trans (.advance parenthesis),
        ⟨List.cons_ne_nil _ _, [(taken, first)], ?_, rfl, ?_⟩,
        fun before => by rw [boundNames_advance]; exact keeps before⟩
      · simpa using means
      · simp
    · exact absurd run (unexpected_ne_ok _ _ _ _)

theorem reads_itemsOrNone (reads : Reads kept item meaning names) (expected : Expected) :
    Reads kept (itemsOrNone item expected) (Closed meaning) (·.flatMap names) := by
  intro start values stop run
  simp only [itemsOrNone, next?_bind] at run
  split at run
  · rename_i parenthesis
    cases run
    exact ⟨_, .advance parenthesis, ⟨[], by simp, rfl, rfl⟩,
      fun before => by rwa [boundNames_advance]⟩
  · rw [remaining_bind] at run
    rcases reads_items reads expected _ _ _ _ run with ⟨taken, takes, ⟨-, closed⟩, keeps⟩
    exact ⟨taken, takes, closed, keeps⟩

theorem spells_itemsOrNone (spells : Spells item meaning) (expected : Expected) :
    Spells (itemsOrNone item expected) (Closed meaning) := by
  intro start values stop run
  rcases reads_itemsOrNone (spells.reads fun _ => True) expected _ _ _ run with
    ⟨taken, takes, closed, -⟩
  have none : values.flatMap (fun _ => ([] : List String)) = [] := by simp
  simp only [none] at takes
  exact ⟨taken, takes, closed⟩

end

/-! ## Types -/

theorem spells_path (first : String) (budget : Nat) :
    Spells (path first budget) fun taken name =>
      ∃ rest, taken = dotted rest ∧ name = ".".intercalate (first :: rest) := by
  induction budget generalizing first with
  | zero =>
    intro start value stop run
    cases run
    exact ⟨[], .refl start, [], rfl, rfl⟩
  | succ budget induction =>
    intro start value stop run
    simp only [path, peek?_bind] at run
    split at run
    · rename_i segment dot name
      rw [← List.head?_eq_getElem?] at dot
      rw [tokens_second] at name
      rcases induction _ _ _ _ run with ⟨taken, takes, rest, rfl, rfl⟩
      refine ⟨_, (Takes.advance dot).trans ((Takes.advance name).trans takes), segment :: rest,
        rfl, ?_⟩
      cases rest <;> simp [String.append_assoc]
    · cases run
      exact ⟨[], .refl start, [], rfl, rfl⟩

theorem spells_optionals (type : TypeExpr) (budget : Nat) :
    Spells (optionals type budget) fun taken answer =>
      ∀ front, DerivesType front type → DerivesType (front ++ taken) answer := by
  induction budget generalizing type with
  | zero =>
    intro start value stop run
    cases run
    exact ⟨[], .refl start, fun front derives => by rwa [List.append_nil]⟩
  | succ budget induction =>
    intro start value stop run
    simp only [optionals, next?_bind] at run
    split at run
    · rename_i mark
      rcases induction _ _ _ _ run with ⟨taken, takes, behind⟩
      refine ⟨_, (Takes.advance mark).trans takes, fun front derives => ?_⟩
      rw [← List.append_assoc]
      exact behind _ derives.optional
    · cases run
      exact ⟨[], .refl start, fun front derives => by rwa [List.append_nil]⟩

theorem spells_typeWithin (depth : Nat) : Spells (typeWithin depth) DerivesType := by
  induction depth with
  | zero => exact spells_unexpected .type _
  | succ depth induction =>
    intro start value stop run
    simp only [typeWithin, next?_bind] at run
    split at run
    · rename_i parenthesis
      rw [advance_bind, bind_eq_ok_iff] at run
      rcases run with ⟨types, middle, list, run⟩
      rw [remaining_bind] at run
      rcases spells_itemsOrNone induction _ _ _ _ list with ⟨taken, takes, parts, each, rfl, rfl⟩
      rcases spells_optionals _ _ _ _ _ run with ⟨marks, takesMarks, behind⟩
      exact ⟨_, ((Takes.advance parenthesis).trans takes).trans takesMarks,
        behind _ (.tuple parts each)⟩
    · rename_i first name
      rw [advance_bind, remaining_bind, bind_eq_ok_iff] at run
      rcases run with ⟨whole, middle, names, run⟩
      rw [remaining_bind] at run
      rcases spells_path _ _ _ _ _ names with ⟨taken, takes, rest, rfl, rfl⟩
      rcases spells_optionals _ _ _ _ _ run with ⟨marks, takesMarks, behind⟩
      exact ⟨_, ((Takes.advance name).trans takes).trans takesMarks, behind _ (.named first rest)⟩
    · exact absurd run (unexpected_ne_ok _ _ _ _)

theorem spells_type : Spells type DerivesType := by
  intro start value stop run
  rw [type, remaining_bind] at run
  exact spells_typeWithin _ _ _ _ run

/-! ## Expressions -/

theorem derivesUnary_of_literal? {token : Token} {value : Expression}
    (literal : literal? token = some value) : DerivesUnary [token] value := by
  cases token <;> cases literal <;> constructor

theorem spells_unary (budget : Nat) : Spells (unary budget) DerivesUnary := by
  induction budget with
  | zero => exact spells_unexpected .literal _
  | succ budget induction =>
    intro start value stop run
    simp only [unary, next?_bind] at run
    split at run
    · rename_i minus
      rw [advance_bind, bind_eq_ok_iff] at run
      rcases run with ⟨operand, middle, inner, done⟩
      cases done
      rcases induction _ _ _ inner with ⟨taken, takes, derives⟩
      exact ⟨_, (Takes.advance minus).trans takes, derives.negate⟩
    · rename_i token _ next
      split at run
      · rename_i literal
        cases run
        exact ⟨_, Takes.advance next, derivesUnary_of_literal? literal⟩
      · exact absurd run (unexpected_ne_ok _ _ _ _)
    · exact absurd run (unexpected_ne_ok _ _ _ _)

theorem upper_of_run {lower value : Expression} (closed : Bool) {start stop : TokenStream}
    (mark : start.tokens.head? = some (rangeToken closed))
    (run : (do advance; return .range lower (← unary (← remaining)) closed : Reader Expression).run
      start = .ok value stop) :
    ∃ taken upper, Takes start (rangeToken closed :: taken) [] stop ∧ DerivesUnary taken upper ∧
      value = .range lower upper closed := by
  rw [advance_bind, remaining_bind, bind_eq_ok_iff] at run
  rcases run with ⟨upper, last, second, done⟩
  cases done
  rcases spells_unary _ _ _ _ second with ⟨taken, takes, derives⟩
  exact ⟨taken, upper, (Takes.advance mark).trans takes, derives, rfl⟩

theorem spells_expression : Spells expression DerivesExpression := by
  intro start value stop run
  rw [expression, remaining_bind, bind_eq_ok_iff] at run
  rcases run with ⟨lower, middle, first, run⟩
  rcases spells_unary _ _ _ _ first with ⟨taken, takes, derives⟩
  simp only [next?_bind] at run
  split at run
  · rename_i mark
    rcases upper_of_run true mark run with ⟨more, upper, takesMore, derivesMore, rfl⟩
    exact ⟨_, takes.trans takesMore, .range true derives derivesMore⟩
  · rename_i mark
    rcases upper_of_run false mark run with ⟨more, upper, takesMore, derivesMore, rfl⟩
    exact ⟨_, takes.trans takesMore, .range false derives derivesMore⟩
  · cases run
    exact ⟨taken, takes, .unary derives⟩

/-! ## Patterns -/

def NamesDistinct (mode : Mode) (names : List String) : Prop :=
  mode.uniqueNames = true → names.Nodup

theorem eq_of_allow {mode : Mode} {form : RefutableForm} {start stop : TokenStream}
    (run : (allow mode form).run start = .ok () stop) : stop = start := by
  unfold allow at run
  rw [get_bind] at run
  split at run
  · cases run
    rfl
  · cases run
  · cases run

theorem of_allow_bind {mode : Mode} {form : RefutableForm} {next : Unit → Reader α}
    {start stop : TokenStream} {value : α}
    (run : (allow mode form >>= next).run start = .ok value stop) :
    (next ()).run start = .ok value stop := by
  rw [bind_eq_ok_iff] at run
  rcases run with ⟨⟨⟩, middle, allowed, run⟩
  rwa [eq_of_allow allowed] at run

theorem reads_bindName (mode : Mode) (name : String) (span : Span) :
    Reads (NamesDistinct mode) (bindName mode name span)
      (fun taken pattern => taken = [] ∧ pattern = leaf mode.mutability name)
      Pattern.bindings := by
  intro start pattern stop run
  have free := free_of_bindName run
  rw [bindName_of_free span free] at run
  cases run
  have takes := Takes.recorded start name span
  refine ⟨[], by rwa [bindings_leaf], ⟨rfl, rfl⟩, fun before unique => ?_⟩
  rw [takes.names]
  exact List.nodup_cons.mpr ⟨free unique, before unique⟩

theorem spells_segments (budget : Nat) :
    Spells (segments budget) fun taken names => taken = dotted names := by
  induction budget with
  | zero =>
    intro start names stop run
    cases run
    exact ⟨[], .refl start, rfl⟩
  | succ budget induction =>
    intro start names stop run
    simp only [segments, next?_bind] at run
    split at run
    · rename_i dot
      rw [advance_bind, bind_eq_ok_iff] at run
      rcases run with ⟨segment, middle, first, run⟩
      rcases name_eq_ok_iff.mp first with ⟨next, rfl⟩
      rw [bind_eq_ok_iff] at run
      rcases run with ⟨rest, last, others, done⟩
      cases done
      rcases induction _ _ _ others with ⟨taken, takes, rfl⟩
      exact ⟨_, (Takes.advance dot).trans ((Takes.advance next).trans takes), rfl⟩
    · cases run
      exact ⟨[], .refl start, rfl⟩

theorem segments_ne_nil {budget : Nat} {start stop : TokenStream} {names : List String}
    (dot : start.tokens.head? = some .dot)
    (run : (segments (budget + 1)).run start = .ok names stop) : names ≠ [] := by
  simp only [segments, next?_bind, dot, advance_bind, bind_eq_ok_iff] at run
  rcases run with ⟨segment, middle, -, rest, last, -, done⟩
  cases done
  exact List.cons_ne_nil _ _

section

variable {mode : Mode} {nested : Mode → Reader Pattern}

/-- The reader for nested patterns is right in every mode. -/
def NestedReads (nested : Mode → Reader Pattern) : Prop :=
  ∀ mode : Mode, Reads (NamesDistinct mode) (nested mode) (Derives .cast mode.mutability)
    Pattern.bindings

theorem tuple_of_run (reads : NestedReads nested) {start stop : TokenStream} {items : List Pattern}
    (parenthesis : start.tokens.head? = some .leftParen)
    (run : (itemsOrNone (nested mode) .pattern).run start.advance = .ok items stop) :
    ∃ taken, Takes start taken (Pattern.ofItems items).bindings stop ∧
      Derives .tuple mode.mutability taken (.ofItems items) ∧
      (NamesDistinct mode start.boundNames → NamesDistinct mode stop.boundNames) := by
  rcases reads_itemsOrNone (reads mode) .pattern _ _ _ run with
    ⟨taken, takes, ⟨parts, each, rfl, rfl⟩, keeps⟩
  rw [boundNames_advance] at keeps
  rw [Pattern.bindings_ofItems]
  exact ⟨_, (Takes.advance parenthesis).trans takes, .items parts each, keeps⟩

theorem payload_of_run (reads : NestedReads nested) {qualifier : Option String} {name : String}
    {start stop : TokenStream} {pattern : Pattern}
    (parenthesis : start.tokens.head? = some .leftParen)
    (run : (enumCase nested mode qualifier name).run start = .ok pattern stop) :
    ∃ taken payload, pattern = .enumCase qualifier name (some payload) ∧
      Takes start taken pattern.bindings stop ∧ Derives .tuple mode.mutability taken payload ∧
      (NamesDistinct mode start.boundNames → NamesDistinct mode stop.boundNames) := by
  simp only [enumCase, next?_bind, parenthesis, advance_bind, bind_eq_ok_iff] at run
  rcases run with ⟨items, middle, list, done⟩
  cases done
  rcases tuple_of_run reads parenthesis list with ⟨taken, takes, derives, keeps⟩
  exact ⟨taken, _, rfl, takes, derives, keeps⟩

theorem reads_enumCase (reads : NestedReads nested) {head : List Token} {qualifier : Option String}
    {name : String} (derives : DerivesCase head qualifier name) :
    Reads (NamesDistinct mode) (enumCase nested mode qualifier name)
      (fun taken => Derives .primary mode.mutability (head ++ taken)) Pattern.bindings := by
  intro start pattern stop run
  by_cases parenthesis : start.tokens.head? = some .leftParen
  · rcases payload_of_run reads parenthesis run with ⟨taken, payload, rfl, takes, inner, keeps⟩
    exact ⟨taken, takes, .payloadCase derives inner, keeps⟩
  · simp only [enumCase, next?_bind] at run
    cases run
    have bare : Derives .primary mode.mutability (head ++ []) (.enumCase qualifier name none) := by
      rw [List.append_nil]
      exact .bareCase derives
    exact ⟨[], .refl start, bare, id⟩

theorem reads_named (reads : NestedReads nested) {name : String} (span : Span)
    {start stop : TokenStream} {pattern : Pattern}
    (first : start.tokens.head? = some (.identifier name))
    (run : (named nested mode name span).run start = .ok pattern stop) :
    ∃ taken, Takes start taken pattern.bindings stop ∧
      Derives .primary mode.mutability taken pattern ∧
      (NamesDistinct mode start.boundNames → NamesDistinct mode stop.boundNames) := by
  simp only [named, peek?_bind] at run
  rw [tokens_second] at run
  split at run
  · rename_i dot
    have run := of_allow_bind run
    rw [advance_bind, remaining_bind, bind_eq_ok_iff] at run
    rcases run with ⟨names, middle, more, run⟩
    rcases List.head?_eq_some_iff.mp dot with ⟨behind, here⟩
    have nonempty : names ≠ [] := by
      rw [here, List.length_cons] at more
      exact segments_ne_nil dot more
    rcases spells_segments _ _ _ _ more with ⟨taken, takes, rfl⟩
    rcases List.eq_nil_or_concat names with rfl | ⟨rest, last, rfl⟩
    · exact absurd rfl nonempty
    · rw [List.concat_eq_append, ← List.cons_append, List.dropLast_concat,
        List.getLastD_concat] at run
      rcases reads_enumCase reads (.qualified name rest last) _ _ _ run with
        ⟨payload, takesPayload, derives, keeps⟩
      refine ⟨_, (Takes.advance first).trans (takes.trans takesPayload), ?_, fun before => ?_⟩
      · simpa [Grammar.path, dotted] using derives
      · apply keeps
        rwa [takes.names, boundNames_advance]
  · rename_i parenthesis
    have run := of_allow_bind run
    rw [advance_bind] at run
    rcases payload_of_run reads parenthesis run with ⟨taken, payload, rfl, takes, inner, keeps⟩
    rw [boundNames_advance] at keeps
    exact ⟨_, (Takes.advance first).trans takes, .namedCase name inner, keeps⟩
  · rename_i mark
    have run := of_allow_bind run
    rw [advance_bind, advance_bind, bind_eq_ok_iff] at run
    rcases run with ⟨inner, middle, bound, done⟩
    cases done
    rcases reads_bindName _ _ _ _ _ _ bound with ⟨taken, takes, ⟨rfl, rfl⟩, keeps⟩
    rw [boundNames_advance, boundNames_advance] at keeps
    exact ⟨_, (Takes.advance first).trans ((Takes.advance mark).trans takes), .optional name, keeps⟩
  · rw [advance_bind] at run
    rcases reads_bindName _ _ _ _ _ _ run with ⟨taken, takes, ⟨rfl, rfl⟩, keeps⟩
    rw [boundNames_advance] at keeps
    exact ⟨_, (Takes.advance first).trans takes, .name name, keeps⟩

theorem binding_of_run (reads : NestedReads nested) (mutable : Bool) {start stop : TokenStream}
    {pattern : Pattern} (word : start.tokens.head? = some (keyword mutable))
    (run : (nested { mode with mutability := some mutable }).run start.advance = .ok pattern stop) :
    ∃ taken, Takes start taken pattern.bindings stop ∧
      Derives .primary mode.mutability taken pattern ∧
      (NamesDistinct mode start.boundNames → NamesDistinct mode stop.boundNames) := by
  rcases reads _ _ _ _ run with ⟨taken, takes, derives, keeps⟩
  rw [boundNames_advance] at keeps
  exact ⟨_, (Takes.advance word).trans takes, .binding mutable derives, keeps⟩

theorem expression_of_run {start stop : TokenStream} {pattern : Pattern}
    (run : (do
        allow mode .expression
        return .expression (← expression) : Reader Pattern).run start = .ok pattern stop) :
    ∃ taken, Takes start taken pattern.bindings stop ∧
      Derives .primary mode.mutability taken pattern ∧
      (NamesDistinct mode start.boundNames → NamesDistinct mode stop.boundNames) := by
  have run := of_allow_bind run
  rw [bind_eq_ok_iff] at run
  rcases run with ⟨value, middle, inner, done⟩
  cases done
  rcases spells_expression _ _ _ inner with ⟨taken, takes, derives⟩
  exact ⟨taken, takes, .expression derives, fun before => takes.names ▸ before⟩

theorem reads_primary (reads : NestedReads nested) :
    Reads (NamesDistinct mode) (primary nested mode) (Derives .primary mode.mutability)
      Pattern.bindings := by
  intro start pattern stop run
  rw [primary, get_bind] at run
  cases unread : start.unread with
  | nil =>
    rw [unread] at run
    exact absurd run (unexpected_ne_ok _ _ _ _)
  | cons lexeme behind =>
    have next := head?_of_unread unread
    rw [unread] at run
    rcases lexeme with ⟨token, span⟩
    cases token with
    | letKeyword => exact binding_of_run reads false next run
    | varKeyword => exact binding_of_run reads true next run
    | underscore =>
      cases run
      exact ⟨_, .advance next, .wildcard, fun before => by rwa [boundNames_advance]⟩
    | leftParen =>
      dsimp only at run
      rw [advance_bind, bind_eq_ok_iff] at run
      rcases run with ⟨items, middle, list, done⟩
      cases done
      rcases tuple_of_run reads next list with ⟨taken, takes, derives, keeps⟩
      exact ⟨taken, takes, .tuple derives, keeps⟩
    | dot =>
      have run := of_allow_bind run
      rw [advance_bind, bind_eq_ok_iff] at run
      rcases run with ⟨name, middle, first, run⟩
      rcases name_eq_ok_iff.mp first with ⟨word, rfl⟩
      rcases reads_enumCase reads (.unqualified name) _ _ _ run with ⟨taken, takes, derives, keeps⟩
      rw [boundNames_advance, boundNames_advance] at keeps
      exact ⟨_, (Takes.advance next).trans ((Takes.advance word).trans takes), derives, keeps⟩
    | identifier name => exact reads_named reads span next run
    | isKeyword =>
      have run := of_allow_bind run
      rw [advance_bind, bind_eq_ok_iff] at run
      rcases run with ⟨type, middle, inner, done⟩
      cases done
      rcases spells_type _ _ _ inner with ⟨taken, takes, derives⟩
      have all := (Takes.advance next).trans takes
      exact ⟨_, all, .isType derives, fun before => all.names ▸ before⟩
    | integer | float | string | boolean | nilKeyword | minus => exact expression_of_run run
    | _ => exact absurd run (unexpected_ne_ok _ _ _ _)

theorem reads_annotated (reads : NestedReads nested) :
    Reads (NamesDistinct mode) (annotated nested mode) (Derives .annotated mode.mutability)
      Pattern.bindings := by
  intro start pattern stop run
  rw [annotated, bind_eq_ok_iff] at run
  rcases run with ⟨inner, middle, first, run⟩
  rcases reads_primary reads _ _ _ first with ⟨taken, takes, derives, keeps⟩
  simp only [next?_bind] at run
  split at run
  · rename_i annotatable colon
    rw [advance_bind, bind_eq_ok_iff] at run
    rcases run with ⟨type, last, second, done⟩
    cases done
    rcases spells_type _ _ _ second with ⟨typeTokens, takesType, derivesType⟩
    have behind := (Takes.advance colon).trans takesType
    have all := takes.trans behind
    rw [List.append_nil, List.append_nil] at all
    exact ⟨_, all, .ascription derives ((annotatable_iff inner).mp annotatable) derivesType,
      fun before => behind.names ▸ keeps before⟩
  · cases run
    exact ⟨taken, takes, .primary derives, keeps⟩

theorem casts_of_run {mutability : Option Bool} (budget : Nat) {pattern answer : Pattern}
    {start stop : TokenStream} (run : (casts mode pattern budget).run start = .ok answer stop) :
    ∃ taken, Takes start taken [] stop ∧ answer.bindings = pattern.bindings ∧
      ∀ front, Derives .cast mutability front pattern →
        Derives .cast mutability (front ++ taken) answer := by
  induction budget generalizing pattern start with
  | zero =>
    cases run
    exact ⟨[], .refl _, rfl, fun front derives => by rwa [List.append_nil]⟩
  | succ budget induction =>
    simp only [casts, next?_bind] at run
    split at run
    · rename_i word
      have run := of_allow_bind run
      rw [advance_bind, bind_eq_ok_iff] at run
      rcases run with ⟨type, middle, first, run⟩
      rcases spells_type _ _ _ first with ⟨typeTokens, takesType, derivesType⟩
      rcases induction run with ⟨taken, takes, bindings, behind⟩
      have takes := ((Takes.advance word).trans takesType).trans takes
      refine ⟨_, takes, bindings, ?_⟩
      intro front derives
      rw [← List.append_assoc]
      exact behind _ (.cast derives derivesType)
    · cases run
      exact ⟨[], .refl _, rfl, fun front derives => by rwa [List.append_nil]⟩

end

theorem reads_patternWithin (depth : Nat) : NestedReads (patternWithin depth) := by
  induction depth with
  | zero => exact fun mode start value stop run => absurd run (unexpected_ne_ok _ _ _ _)
  | succ depth induction =>
    intro mode start pattern stop run
    rw [patternWithin, bind_eq_ok_iff] at run
    rcases run with ⟨inner, middle, first, run⟩
    rw [remaining_bind] at run
    rcases reads_annotated induction _ _ _ first with ⟨taken, takes, derives, keeps⟩
    rcases casts_of_run _ run with ⟨behind, takesBehind, bindings, extended⟩
    have all := takes.trans takesBehind
    rw [List.append_nil, ← bindings] at all
    exact ⟨_, all, extended _ (.annotated derives), fun before => takesBehind.names ▸ keeps before⟩

end PatternClauses.Reader
