import PatternClauses.Proofs.Parsing.Stream

/-!
# What is in the grammar is accepted

Where everything may match, a reader in front of tokens that the grammar derives takes exactly
these tokens and answers the derived pattern, provided that what stands behind them cannot
continue it.  A binding form takes in all that stands behind it, so a derivation is brought into
that shape first.
-/

namespace PatternClauses.Reader

open TokenStream Grammar

/-- The reader takes the tokens, binds the names and answers the value. -/
def Accepts (reader : Reader α) (start : TokenStream) (taken : List Token) (names : List String)
    (value : α) : Prop :=
  ∃ stop, reader.run start = .ok value stop ∧ Takes start taken names stop

def Fits (unique : Bool) (names : List String) (stream : TokenStream) : Prop :=
  unique = true → (names.reverse ++ stream.boundNames).Nodup

theorem Fits.first {unique : Bool} {first second : List String} {stream : TokenStream}
    (fits : Fits unique (first ++ second) stream) : Fits unique first stream := by
  intro distinct
  have all := fits distinct
  rw [List.reverse_append, List.append_assoc] at all
  exact (List.nodup_append.mp all).2.1

theorem Fits.second {unique : Bool} {first second : List String} {start stop : TokenStream}
    {taken : List Token} (fits : Fits unique (first ++ second) start)
    (takes : Takes start taken first stop) : Fits unique second stop := by
  intro distinct
  have all := fits distinct
  rwa [List.reverse_append, List.append_assoc, ← takes.names] at all

theorem Fits.of_takes {unique : Bool} {names : List String} {start stop : TokenStream}
    {taken : List Token} (fits : Fits unique names start) (takes : Takes start taken [] stop) :
    Fits unique names stop := by
  rw [← List.nil_append names] at fits
  exact fits.second takes

/-! ## What may stand behind -/

/-- Nothing, or one of the tokens. -/
def Ends (allowed behind : List Token) : Prop :=
  ∀ token, behind.head? = some token → token ∈ allowed

def itemEnds : List Token := [.comma, .rightParen]

def ascriptionEnds : List Token := .asKeyword :: itemEnds

def primaryEnds : List Token := .colon :: ascriptionEnds

theorem Ends.mono {allowed more behind : List Token} (ends : Ends allowed behind)
    (subset : ∀ token ∈ allowed, token ∈ more) : Ends more behind :=
  fun token next => subset token (ends token next)

theorem Ends.cons {allowed : List Token} {token : Token} (member : token ∈ allowed)
    (behind : List Token) : Ends allowed (token :: behind) := by
  rintro _ ⟨⟩
  exact member

theorem Ends.head?_ne {allowed behind : List Token} (ends : Ends allowed behind) {token : Token}
    (outside : token ∉ allowed) : behind.head? ≠ some token :=
  fun next => outside (ends token next)

theorem Ends.of_ascription {behind : List Token} (ends : Ends ascriptionEnds behind) :
    Ends primaryEnds behind :=
  ends.mono fun _ => List.mem_cons_of_mem _

theorem Ends.of_item {behind : List Token} (ends : Ends itemEnds behind) :
    Ends ascriptionEnds behind :=
  ends.mono fun _ => List.mem_cons_of_mem _

/-! ## Types -/

theorem dotted_step {segment : String} {rest : List String} {behind : List Token}
    {start : TokenStream} (here : start.tokens = dotted (segment :: rest) ++ behind) :
    start.tokens.head? = some .dot ∧
      start.advance.tokens.head? = some (.identifier segment) ∧
      start.advance.advance.tokens = dotted rest ++ behind := by
  have tail : start.advance.tokens = .identifier segment :: (dotted rest ++ behind) := by
    rw [tokens_advance, here]
    rfl
  refine ⟨?_, ?_, ?_⟩
  · rw [here]
    rfl
  · rw [tail, List.head?_cons]
  · rw [tokens_advance, tail, List.tail_cons]

theorem accepts_path {behind : List Token} (ends : behind.head? ≠ some .dot) (rest : List String)
    (first : String) (budget : Nat) {start : TokenStream}
    (here : start.tokens = dotted rest ++ behind) (enough : start.tokens.length ≤ budget) :
    Accepts (path first budget) start (dotted rest) [] (".".intercalate (first :: rest)) := by
  induction rest generalizing first budget start with
  | nil =>
    refine ⟨start, ?_, .refl start⟩
    cases budget with
    | zero => rfl
    | succ budget =>
      simp only [path, peek?_bind]
      split
      · rename_i dot _
        rw [here, ← List.head?_eq_getElem?] at dot
        exact absurd dot ends
      · simp
  | cons segment rest induction =>
    rcases dotted_step here with ⟨dot, name, left⟩
    cases budget with
    | zero =>
      rw [here] at enough
      cases enough
    | succ budget =>
      have room : start.advance.advance.tokens.length ≤ budget := by
        rw [tokens_advance, tokens_advance, List.length_tail, List.length_tail]
        omega
      rcases induction (first ++ "." ++ segment) budget left room with ⟨stop, run, takes⟩
      refine ⟨stop, ?_, (Takes.advance dot).trans ((Takes.advance name).trans takes)⟩
      have joined : ".".intercalate (first :: segment :: rest) =
          ".".intercalate ((first ++ "." ++ segment) :: rest) := by
        cases rest <;> simp [String.append_assoc]
      rw [List.head?_eq_getElem?] at dot
      rw [← tokens_second] at name
      simp only [path, peek?_bind, dot, name, advance_bind, joined]
      exact run

theorem head?_marks_ne {inner type : TypeExpr} {marks behind : List Token}
    (marked : Marks inner marks type) (ends : behind.head? ≠ some .dot) :
    (marks ++ behind).head? ≠ some .dot := by
  induction marked generalizing behind with
  | none => exact ends
  | mark _ induction =>
    rw [List.append_assoc]
    apply induction
    nofun

theorem optionals_of_marks {inner type : TypeExpr} {marks behind : List Token}
    (marked : Marks inner marks type) {budget : Nat} {start : TokenStream}
    (here : start.tokens = marks ++ behind) (enough : start.tokens.length ≤ budget) :
    ∃ stop left, Takes start marks [] stop ∧ stop.tokens.length ≤ left ∧
      (optionals inner budget).run start = (optionals type left).run stop := by
  induction marked generalizing behind with
  | none => exact ⟨start, budget, .refl start, enough, rfl⟩
  | @mark marks type _ induction =>
    rw [List.append_assoc] at here
    rcases induction here with ⟨stop, left, takes, room, same⟩
    have mark : stop.tokens = .questionMark :: behind := takes.tokens_eq here
    cases left with
    | zero =>
      rw [mark] at room
      cases room
    | succ left =>
      have next : stop.tokens.head? = some .questionMark := by rw [mark]; rfl
      refine ⟨stop.advance, left, takes.trans (.advance next), ?_, ?_⟩
      · rw [tokens_advance, List.length_tail]
        omega
      · rw [same]
        simp only [optionals, next?_bind, next, advance_bind]

theorem accepts_optionals {inner type : TypeExpr} {marks behind : List Token}
    (marked : Marks inner marks type) (ends : Ends primaryEnds behind) {start : TokenStream}
    (here : start.tokens = marks ++ behind) :
    Accepts (do optionals inner (← remaining)) start marks [] type := by
  rcases optionals_of_marks marked here (Nat.le_refl _) with ⟨stop, left, takes, -, same⟩
  have next : stop.tokens = behind := takes.tokens_eq here
  refine ⟨stop, ?_, takes⟩
  rw [remaining_bind, same]
  cases left with
  | zero => rfl
  | succ left =>
    simp only [optionals, next?_bind]
    split
    · rename_i mark
      rw [next] at mark
      exact absurd mark (ends.head?_ne (by decide))
    · rfl

/-! ## Lists in parentheses -/

/-- The reader takes the tokens wherever they stand in front of something that `ends` allows. -/
def Recognizes (reader : Reader α) (unique : Bool) (ends tokens : List Token)
    (names : List String) (value : α) : Prop :=
  ∀ start behind, start.tokens = tokens ++ behind → Ends ends behind → Fits unique names start →
    Accepts reader start tokens names value

theorem Recognizes.weaken {reader : Reader α} {unique : Bool} {ends stricter tokens : List Token}
    {names : List String} {value : α}
    (recognizes : Recognizes reader unique ends tokens names value)
    (subset : ∀ token ∈ stricter, token ∈ ends) :
    Recognizes reader unique stricter tokens names value :=
  fun start behind here ending fits => recognizes start behind here (ending.mono subset) fits

theorem starts_intercalate {first : List Token × α} {parts : List (List Token × α)}
    (starts : ∀ part ∈ first :: parts, Starts part.1) :
    Starts ([Token.comma].intercalate ((first :: parts).map (·.1))) := by
  have begins := starts first List.mem_cons_self
  cases parts with
  | nil => simpa using begins
  | cons second parts =>
    rw [List.map_cons, List.map_cons, List.intercalate_cons_cons, List.append_assoc]
    exact begins.append _

theorem length_lt_enclosed {part : List Token × α} {parts : List (List Token × α)}
    (member : part ∈ parts) : part.1.length < (enclosed (parts.map (·.1))).length := by
  have mapped : part.1 ∈ parts.map (·.1) := List.mem_map.mpr ⟨part, member, rfl⟩
  have shorter := (infix_intercalate mapped).length_le
  simp only [enclosed, List.length_cons, List.length_append]
  omega

section

variable {item : Reader α} {unique : Bool} (names : α → List String)

theorem accepts_items (parts : List (List Token × α)) (nonempty : parts ≠ [])
    (starts : ∀ part ∈ parts, Starts part.1)
    (each : ∀ part ∈ parts, Recognizes item unique itemEnds part.1 (names part.2) part.2)
    (expected : Expected) {budget : Nat} {start : TokenStream} {behind : List Token}
    (here : start.tokens = [Token.comma].intercalate (parts.map (·.1)) ++ .rightParen :: behind)
    (enough : start.tokens.length ≤ budget)
    (fits : Fits unique (parts.flatMap fun part => names part.2) start) :
    Accepts (items item expected budget) start
      ([Token.comma].intercalate (parts.map (·.1)) ++ [.rightParen])
      (parts.flatMap fun part => names part.2) (parts.map (·.2)) := by
  induction parts generalizing budget start with
  | nil => exact absurd rfl nonempty
  | cons first parts induction =>
    have reads := each first List.mem_cons_self
    rw [List.flatMap_cons] at fits
    cases budget with
    | zero =>
      rw [here] at enough
      simp at enough
    | succ budget =>
      cases parts with
      | nil =>
        have here : start.tokens = first.1 ++ .rightParen :: behind := by simpa using here
        have closes : Ends itemEnds (.rightParen :: behind) := .cons (by decide) _
        rcases reads _ _ here closes fits.first with ⟨middle, run, takes⟩
        have next : middle.tokens.head? = some .rightParen := by
          rw [takes.tokens_eq here, List.head?_cons]
        refine ⟨middle.advance, ?_, ?_⟩
        · rw [items, bind_of_ok _ run]
          simp only [next?_bind, next]
          rfl
        · have all := takes.trans (.advance next)
          simpa using all
      | cons second parts =>
        have here : start.tokens = first.1 ++ .comma ::
            ([Token.comma].intercalate ((second :: parts).map (·.1)) ++ .rightParen :: behind) := by
          simpa using here
        rcases reads _ _ here (.cons (by decide) _) fits.first with ⟨middle, run, takes⟩
        have rest := takes.tokens_eq here
        have next : middle.tokens.head? = some .comma := by rw [rest, List.head?_cons]
        have left : middle.advance.tokens =
            [Token.comma].intercalate ((second :: parts).map (·.1)) ++ .rightParen :: behind := by
          rw [tokens_advance, rest, List.tail_cons]
        -- Behind a comma the reader refuses a closing parenthesis, with which no item begins.
        have opens : middle.advance.tokens.head? ≠ some .rightParen := by
          rw [left]
          exact (starts_intercalate fun part member => starts part (.tail _ member)).head?_ne _
        have room : middle.advance.tokens.length ≤ budget := by
          rw [here, List.length_append, List.length_cons] at enough
          rw [left]
          omega
        have others := (fits.second takes).of_takes (.advance next)
        rcases induction (List.cons_ne_nil _ _) (fun part member => starts part (.tail _ member))
          (fun part member => each part (.tail _ member)) left room others with
          ⟨stop, rest, takesRest⟩
        refine ⟨stop, ?_, ?_⟩
        · rw [items, bind_of_ok _ run]
          simp only [next?_bind, next, advance_bind]
          rw [bind_of_ok _ rest]
          rfl
        · have all := (takes.trans (.advance next)).trans takesRest
          simpa using all

theorem accepts_itemsOrNone (parts : List (List Token × α))
    (starts : ∀ part ∈ parts, Starts part.1)
    (each : ∀ part ∈ parts, Recognizes item unique itemEnds part.1 (names part.2) part.2)
    (expected : Expected) {start : TokenStream} {behind : List Token}
    (here : start.tokens = [Token.comma].intercalate (parts.map (·.1)) ++ .rightParen :: behind)
    (fits : Fits unique (parts.flatMap fun part => names part.2) start) :
    Accepts (itemsOrNone item expected) start
      ([Token.comma].intercalate (parts.map (·.1)) ++ [.rightParen])
      (parts.flatMap fun part => names part.2) (parts.map (·.2)) := by
  cases parts with
  | nil =>
    have next : start.tokens.head? = some .rightParen := by
      rw [here]
      rfl
    refine ⟨start.advance, ?_, .advance next⟩
    simp only [itemsOrNone, next?_bind, next]
    rfl
  | cons first parts =>
    have opens : start.tokens.head? ≠ some .rightParen := by
      rw [here]
      exact (starts_intercalate starts).head?_ne _
    rcases accepts_items names (first :: parts) (List.cons_ne_nil _ _) starts each expected here
      (Nat.le_refl _) fits with ⟨stop, run, takes⟩
    refine ⟨stop, ?_, takes⟩
    simp only [itemsOrNone, next?_bind, remaining_bind]
    exact run

theorem accepts_enclosed (parts : List (List Token × α))
    (starts : ∀ part ∈ parts, Starts part.1)
    (each : ∀ part ∈ parts, Recognizes item unique itemEnds part.1 (names part.2) part.2)
    (expected : Expected) {start : TokenStream} {behind : List Token}
    (here : start.tokens = enclosed (parts.map (·.1)) ++ behind)
    (fits : Fits unique (parts.flatMap fun part => names part.2) start) :
    ∃ stop, (itemsOrNone item expected).run start.advance = .ok (parts.map (·.2)) stop ∧
      Takes start (enclosed (parts.map (·.1))) (parts.flatMap fun part => names part.2) stop := by
  have next : start.tokens.head? = some .leftParen := by
    rw [here]
    rfl
  have left : start.advance.tokens =
      [Token.comma].intercalate (parts.map (·.1)) ++ .rightParen :: behind := by
    rw [tokens_advance, here]
    simp [enclosed]
  rcases accepts_itemsOrNone names parts starts each expected left
    (fits.of_takes (.advance next)) with ⟨stop, run, takes⟩
  exact ⟨stop, run, (Takes.advance next).trans takes⟩

end

theorem Fits.repeatable (stream : TokenStream) (names : List String) : Fits false names stream :=
  nofun

theorem recognizes_typeWithin (depth : Nat) {tokens : List Token} {type : TypeExpr}
    (derives : DerivesType tokens type) (room : tokens.length ≤ depth) :
    Recognizes (typeWithin depth) false primaryEnds tokens [] type := by
  -- On the depth: an item has fewer tokens than the tuple around it.
  induction depth generalizing tokens type with
  | zero =>
    rcases derives.starts with ⟨first, rest, rfl, -⟩
    cases room
  | succ depth induction =>
    intro start behind here ends _
    rcases derives.shape with ⟨front, inner, marks, rfl, simple, marked⟩
    rw [List.append_assoc] at here
    rw [List.length_append] at room
    cases simple with
    | named first rest =>
      have next : start.tokens.head? = some (.identifier first) := by
        rw [here]
        rfl
      have left : start.advance.tokens = dotted rest ++ (marks ++ behind) := by
        rw [tokens_advance, here]
        rfl
      have apart := head?_marks_ne marked (ends.head?_ne (by decide))
      rcases accepts_path apart rest first _ left (Nat.le_refl _) with ⟨middle, names, takes⟩
      rcases accepts_optionals marked ends (takes.tokens_eq left) with ⟨stop, run, takesMarks⟩
      refine ⟨stop, ?_, ((Takes.advance next).trans takes).trans takesMarks⟩
      simp only [typeWithin, next?_bind, next, advance_bind, remaining_bind]
      rw [bind_of_ok _ names]
      exact run
    | tuple parts each =>
      have next : start.tokens.head? = some .leftParen := by
        rw [here]
        rfl
      have within : ∀ part ∈ parts,
          Recognizes (typeWithin depth) false itemEnds part.1 [] part.2 := by
        intro part member
        have shorter := length_lt_enclosed member
        exact (induction (each part member) (by omega)).weaken (by decide)
      rcases accepts_enclosed (fun _ => []) parts (fun part member => (each part member).starts)
        within .type here (.repeatable _ _) with ⟨middle, list, takes⟩
      rcases accepts_optionals marked ends (takes.tokens_eq here) with ⟨stop, run, takesMarks⟩
      have all := takes.trans takesMarks
      rw [List.flatMap_eq_nil_iff.mpr fun _ _ => rfl] at all
      refine ⟨stop, ?_, all⟩
      simp only [typeWithin, next?_bind, next, advance_bind]
      rw [bind_of_ok _ list]
      exact run

theorem accepts_type {tokens behind : List Token} {value : TypeExpr}
    (derives : DerivesType tokens value) (ends : Ends primaryEnds behind) {start : TokenStream}
    (here : start.tokens = tokens ++ behind) : Accepts type start tokens [] value := by
  have room : tokens.length ≤ start.tokens.length := by
    rw [here, List.length_append]
    omega
  rcases recognizes_typeWithin _ derives room start behind here ends (.repeatable _ _) with
    ⟨stop, run, takes⟩
  refine ⟨stop, ?_, takes⟩
  rw [type, remaining_bind]
  exact run

/-! ## Expressions -/

theorem accepts_literal {token : Token} {value : Expression} (stands : literal? token = some value)
    {start : TokenStream} (next : start.tokens.head? = some token) (budget : Nat) :
    Accepts (unary (budget + 1)) start [token] [] value := by
  refine ⟨start.advance, ?_, .advance next⟩
  rw [unary, next?_bind, next]
  cases token <;> cases stands <;> rfl

theorem accepts_unary {tokens behind : List Token} {value : Expression}
    (derives : DerivesUnary tokens value) {budget : Nat} {start : TokenStream}
    (here : start.tokens = tokens ++ behind) (enough : tokens.length ≤ budget) :
    Accepts (unary budget) start tokens [] value := by
  induction derives generalizing budget start with
  | @negate tokens _ _ induction =>
    cases budget with
    | zero => cases enough
    | succ budget =>
      have next : start.tokens.head? = some .minus := by
        rw [here]
        rfl
      have left : start.advance.tokens = tokens ++ behind := by
        rw [tokens_advance, here]
        rfl
      rcases induction left (Nat.le_of_succ_le_succ enough) with ⟨stop, run, takes⟩
      refine ⟨stop, ?_, (Takes.advance next).trans takes⟩
      simp only [unary, next?_bind, next, advance_bind]
      rw [bind_of_ok _ run]
      rfl
  | integer | float | string | boolean | nil =>
    cases budget with
    | zero => cases enough
    | succ budget =>
      apply accepts_literal rfl
      rw [here]
      rfl

theorem accepts_upper {tokens behind : List Token} {lower upper : Expression} (closed : Bool)
    (derives : DerivesUnary tokens upper) {start : TokenStream}
    (here : start.tokens = rangeToken closed :: (tokens ++ behind)) :
    Accepts (do advance; return Expression.range lower (← unary (← remaining)) closed) start
      (rangeToken closed :: tokens) [] (.range lower upper closed) := by
  have next : start.tokens.head? = some (rangeToken closed) := by rw [here, List.head?_cons]
  have left : start.advance.tokens = tokens ++ behind := by
    rw [tokens_advance, here, List.tail_cons]
  have room : tokens.length ≤ start.advance.tokens.length := by
    rw [left, List.length_append]
    omega
  rcases accepts_unary derives left room with ⟨stop, run, takes⟩
  refine ⟨stop, ?_, (Takes.advance next).trans takes⟩
  rw [advance_bind, remaining_bind, bind_of_ok _ run]
  rfl

theorem accepts_expression {tokens behind : List Token} {value : Expression}
    (derives : DerivesExpression tokens value) (ends : Ends primaryEnds behind)
    {start : TokenStream} (here : start.tokens = tokens ++ behind) :
    Accepts expression start tokens [] value := by
  cases derives with
  | unary derives =>
    have room : tokens.length ≤ start.tokens.length := by
      rw [here, List.length_append]
      omega
    rcases accepts_unary derives here room with ⟨stop, run, takes⟩
    refine ⟨stop, ?_, takes⟩
    rw [expression, remaining_bind, bind_of_ok _ run, next?_bind, takes.tokens_eq here]
    split
    · rename_i mark
      exact absurd mark (ends.head?_ne (by decide))
    · rename_i mark
      exact absurd mark (ends.head?_ne (by decide))
    · rfl
  | @range lower first upper last closed derivesLower derivesUpper =>
    rw [List.append_assoc, List.cons_append] at here
    have room : lower.length ≤ start.tokens.length := by
      rw [here, List.length_append]
      omega
    rcases accepts_unary derivesLower here room with ⟨middle, run, takes⟩
    have rest := takes.tokens_eq here
    rcases accepts_upper closed derivesUpper rest with ⟨stop, runUpper, takesUpper⟩
    refine ⟨stop, ?_, takes.trans takesUpper⟩
    rw [expression, remaining_bind, bind_of_ok _ run, next?_bind, rest]
    cases closed <;> exact runUpper

/-! ## Patterns -/

theorem allow_bind {mode : Mode} (full : mode.context = .full) (form : RefutableForm)
    (next : Unit → Reader α) (stream : TokenStream) :
    (allow mode form >>= next).run stream = (next ()).run stream := by
  apply bind_of_ok
  unfold allow
  rw [get_bind]
  simp only [full]
  rfl

theorem accepts_bindName {mode : Mode} {name : String} {start : TokenStream} (span : Span)
    (fits : Fits mode.uniqueNames [name] start) :
    Accepts (bindName mode name span) start [] [name] (leaf mode.mutability name) := by
  refine ⟨_, bindName_of_free span ?_, Takes.recorded start name span⟩
  intro unique
  exact (List.nodup_cons.mp (fits unique)).1

theorem accepts_segments {behind : List Token} (ends : behind.head? ≠ some .dot)
    (names : List String) {budget : Nat} {start : TokenStream}
    (here : start.tokens = dotted names ++ behind) (enough : start.tokens.length ≤ budget) :
    Accepts (segments budget) start (dotted names) [] names := by
  induction names generalizing budget start with
  | nil =>
    refine ⟨start, ?_, .refl start⟩
    cases budget with
    | zero => rfl
    | succ budget =>
      simp only [segments, next?_bind]
      split
      · rename_i dot
        rw [here] at dot
        exact absurd dot ends
      · rfl
  | cons segment names induction =>
    rcases dotted_step here with ⟨dot, next, left⟩
    cases budget with
    | zero =>
      rw [here] at enough
      cases enough
    | succ budget =>
      have room : start.advance.advance.tokens.length ≤ budget := by
        rw [tokens_advance, tokens_advance, List.length_tail, List.length_tail]
        omega
      rcases induction left room with ⟨stop, run, takes⟩
      refine ⟨stop, ?_, (Takes.advance dot).trans ((Takes.advance next).trans takes)⟩
      simp only [segments, next?_bind, dot, advance_bind]
      rw [bind_of_ok _ (name_eq_ok_iff.mpr ⟨next, rfl⟩), bind_of_ok _ run]
      rfl

section

variable {mode : Mode} {nested : Mode → Reader Pattern} {depth : Nat}

/-- The reader for nested patterns takes what the grammar derives, up to a length. -/
def NestedAccepts (nested : Mode → Reader Pattern) (depth : Nat) : Prop :=
  ∀ mode : Mode, mode.context = .full → ∀ tokens pattern,
    Derives .cast mode.mutability tokens pattern → tokens.length ≤ depth →
    Recognizes (nested mode) mode.uniqueNames itemEnds tokens pattern.bindings pattern

theorem bindings_ofItems_map (parts : List (List Token × Pattern)) :
    (Pattern.ofItems (parts.map (·.2))).bindings = parts.flatMap fun part => part.2.bindings := by
  rw [Pattern.bindings_ofItems, List.flatMap_map]

theorem accepts_tuple (accepts : NestedAccepts nested depth) (full : mode.context = .full)
    {parts : List (List Token × Pattern)}
    (each : ∀ part ∈ parts, Derives .cast mode.mutability part.1 part.2)
    (room : (enclosed (parts.map (·.1))).length ≤ depth + 1) {start : TokenStream}
    {behind : List Token} (here : start.tokens = enclosed (parts.map (·.1)) ++ behind)
    (fits : Fits mode.uniqueNames (Pattern.ofItems (parts.map (·.2))).bindings start) :
    ∃ stop, (itemsOrNone (nested mode) .pattern).run start.advance = .ok (parts.map (·.2)) stop ∧
      Takes start (enclosed (parts.map (·.1))) (Pattern.ofItems (parts.map (·.2))).bindings
        stop := by
  have within : ∀ part ∈ parts,
      Recognizes (nested mode) mode.uniqueNames itemEnds part.1 part.2.bindings part.2 := by
    intro part member
    have shorter := length_lt_enclosed member
    exact accepts mode full _ _ (each part member) (by omega)
  rw [bindings_ofItems_map] at fits ⊢
  exact accepts_enclosed Pattern.bindings parts (fun part member => (each part member).starts)
    within .pattern here fits

theorem accepts_payload (accepts : NestedAccepts nested depth) (full : mode.context = .full)
    (qualifier : Option String) (name : String) {more behind : List Token} {payload : Pattern}
    (derives : Derives .tuple mode.mutability more payload) (room : more.length ≤ depth + 1)
    {start : TokenStream} (here : start.tokens = more ++ behind)
    (fits : Fits mode.uniqueNames payload.bindings start) :
    Accepts (enumCase nested mode qualifier name) start more payload.bindings
      (.enumCase qualifier name (some payload)) := by
  cases derives with
  | items parts each =>
    have next : start.tokens.head? = some .leftParen := by
      rw [here]
      rfl
    rcases accepts_tuple accepts full each room here fits with ⟨stop, run, takes⟩
    refine ⟨stop, ?_, takes⟩
    simp only [enumCase, next?_bind, next, advance_bind]
    rw [bind_of_ok _ run]
    rfl

theorem accepts_bareCase (qualifier : Option String) (name : String) {start : TokenStream}
    (ends : Ends primaryEnds start.tokens) :
    Accepts (enumCase nested mode qualifier name) start [] [] (.enumCase qualifier name none) := by
  refine ⟨start, ?_, .refl start⟩
  simp only [enumCase, next?_bind]
  split
  · rename_i parenthesis
    exact absurd parenthesis (ends.head?_ne (by decide))
  · rfl

theorem primary_of_case (full : mode.context = .full) {head behind : List Token}
    {qualifier : Option String} {name : String} (derives : DerivesCase head qualifier name)
    (apart : behind.head? ≠ some .dot) {start : TokenStream}
    (here : start.tokens = head ++ behind) :
    ∃ middle, Takes start head [] middle ∧
      (primary nested mode).run start = (enumCase nested mode qualifier name).run middle := by
  cases derives with
  | unqualified =>
    rcases unread_of_tokens here with ⟨lexeme, rest, unread, token, -⟩
    have dot : start.tokens.head? = some .dot := by
      rw [here]
      rfl
    have next : start.advance.tokens.head? = some (.identifier name) := by
      rw [tokens_advance, here]
      rfl
    refine ⟨_, (Takes.advance dot).trans (.advance next), ?_⟩
    rw [primary, get_bind, unread]
    simp only [token, allow_bind full, advance_bind]
    rw [bind_of_ok _ (name_eq_ok_iff.mpr ⟨next, rfl⟩)]
  | qualified first rest =>
    rcases unread_of_tokens here with ⟨lexeme, _, unread, token, -⟩
    have next : start.tokens.head? = some (.identifier first) := by
      rw [here]
      rfl
    have left : start.advance.tokens = dotted (rest ++ [name]) ++ behind := by
      rw [tokens_advance, here]
      rfl
    have dot : start.tokens[1]? = some .dot := by
      rw [tokens_second, left]
      cases rest <;> rfl
    rcases accepts_segments apart _ left (Nat.le_refl _) with ⟨middle, names, takes⟩
    refine ⟨middle, (Takes.advance next).trans takes, ?_⟩
    rw [primary, get_bind, unread]
    simp only [token, named, peek?_bind, dot, allow_bind full, advance_bind, remaining_bind]
    rw [bind_of_ok _ names, ← List.cons_append, List.dropLast_concat, List.getLastD_concat]

theorem accepts_name {name : String} {start : TokenStream} {behind : List Token}
    (here : start.tokens = .identifier name :: behind) (ends : Ends primaryEnds behind)
    (fits : Fits mode.uniqueNames [name] start) :
    Accepts (primary nested mode) start [.identifier name] [name] (leaf mode.mutability name) := by
  rcases unread_of_tokens here with ⟨lexeme, _, unread, token, -⟩
  have next : start.tokens.head? = some (.identifier name) := by rw [here, List.head?_cons]
  have second : start.tokens[1]? = behind.head? := by
    rw [tokens_second, tokens_advance, here, List.tail_cons]
  rcases accepts_bindName lexeme.span (fits.of_takes (.advance next)) with ⟨stop, run, takes⟩
  refine ⟨stop, ?_, (Takes.advance next).trans takes⟩
  rw [primary, get_bind, unread]
  simp only [token, named, peek?_bind, second]
  split
  · rename_i dot
    exact absurd dot (ends.head?_ne (by decide))
  · rename_i parenthesis
    exact absurd parenthesis (ends.head?_ne (by decide))
  · rename_i mark
    exact absurd mark (ends.head?_ne (by decide))
  · exact run

theorem accepts_optionalName (full : mode.context = .full) {name : String} {start : TokenStream}
    {behind : List Token} (here : start.tokens = .identifier name :: .questionMark :: behind)
    (fits : Fits mode.uniqueNames [name] start) :
    Accepts (primary nested mode) start [.identifier name, .questionMark] [name]
      (.optional (leaf mode.mutability name)) := by
  rcases unread_of_tokens here with ⟨lexeme, _, unread, token, -⟩
  have next : start.tokens.head? = some (.identifier name) := by rw [here, List.head?_cons]
  have mark : start.advance.tokens.head? = some .questionMark := by
    rw [tokens_advance, here]
    rfl
  have second : start.tokens[1]? = some .questionMark := by
    rw [here]
    rfl
  have taken := (Takes.advance next).trans (.advance mark)
  rcases accepts_bindName lexeme.span (fits.of_takes taken) with ⟨stop, run, takes⟩
  refine ⟨stop, ?_, taken.trans takes⟩
  rw [primary, get_bind, unread]
  simp only [token, named, peek?_bind, second, allow_bind full, advance_bind]
  rw [bind_of_ok _ run]
  rfl

def StartsExpression (token : Token) : Prop := token = .minus ∨ (literal? token).isSome

theorem starts_unary {tokens : List Token} {value : Expression}
    (derives : DerivesUnary tokens value) :
    ∃ first rest, tokens = first :: rest ∧ StartsExpression first := by
  cases derives with
  | negate => exact ⟨_, _, rfl, .inl rfl⟩
  | integer | float | string | boolean | nil => exact ⟨_, _, rfl, .inr rfl⟩

theorem starts_expression {tokens : List Token} {value : Expression}
    (derives : DerivesExpression tokens value) :
    ∃ first rest, tokens = first :: rest ∧ StartsExpression first := by
  cases derives with
  | unary derives => exact starts_unary derives
  | range closed lower upper =>
    rcases starts_unary lower with ⟨first, rest, rfl, starts⟩
    exact ⟨first, _, List.cons_append, starts⟩

theorem primary_of_expression (full : mode.context = .full) {first : Token} {rest : List Token}
    (starts : StartsExpression first) {start : TokenStream} (here : start.tokens = first :: rest) :
    (primary nested mode).run start =
      (do return .expression (← expression) : Reader Pattern).run start := by
  rcases unread_of_tokens here with ⟨lexeme, _, unread, token, -⟩
  rcases starts with rfl | literal
  · rw [primary, get_bind, unread]
    simp only [token, allow_bind full]
  · rw [primary, get_bind, unread]
    cases first <;> cases literal <;> simp only [token, allow_bind full]

theorem accepts_expressionPattern (full : mode.context = .full) {tokens behind : List Token}
    {value : Expression} (derives : DerivesExpression tokens value) (ends : Ends primaryEnds behind)
    {start : TokenStream} (here : start.tokens = tokens ++ behind) :
    Accepts (primary nested mode) start tokens [] (.expression value) := by
  rcases accepts_expression derives ends here with ⟨stop, run, takes⟩
  rcases starts_expression derives with ⟨first, rest, rfl, starts⟩
  refine ⟨stop, ?_, takes⟩
  rw [primary_of_expression full starts here, bind_of_ok _ run]
  rfl

theorem accepts_isType (full : mode.context = .full) {tokens behind : List Token}
    {value : TypeExpr} (derives : DerivesType tokens value) (ends : Ends primaryEnds behind)
    {start : TokenStream} (here : start.tokens = .isKeyword :: (tokens ++ behind)) :
    Accepts (primary nested mode) start (.isKeyword :: tokens) [] (.isType value) := by
  rcases unread_of_tokens here with ⟨lexeme, _, unread, token, -⟩
  have next : start.tokens.head? = some .isKeyword := by rw [here, List.head?_cons]
  have left : start.advance.tokens = tokens ++ behind := by
    rw [tokens_advance, here, List.tail_cons]
  rcases accepts_type derives ends left with ⟨stop, run, takes⟩
  refine ⟨stop, ?_, (Takes.advance next).trans takes⟩
  rw [primary, get_bind, unread]
  simp only [token, allow_bind full, advance_bind]
  rw [bind_of_ok _ run]
  rfl

theorem accepts_primary (accepts : NestedAccepts nested depth) (full : mode.context = .full)
    {tokens behind : List Token} {pattern : Pattern}
    (derives : Derives .primary mode.mutability tokens pattern)
    (plain : ∀ mutable, tokens.head? ≠ some (keyword mutable)) (room : tokens.length ≤ depth + 1)
    (ends : Ends primaryEnds behind) {start : TokenStream} (here : start.tokens = tokens ++ behind)
    (fits : Fits mode.uniqueNames pattern.bindings start) :
    Accepts (primary nested mode) start tokens pattern.bindings pattern := by
  cases derives with
  | binding mutable => exact absurd rfl (plain mutable)
  | wildcard =>
    rcases unread_of_tokens here with ⟨lexeme, _, unread, token, -⟩
    have next : start.tokens.head? = some .underscore := by
      rw [here]
      rfl
    refine ⟨start.advance, ?_, .advance next⟩
    rw [primary, get_bind, unread]
    simp only [token, advance_bind, pure_run]
  | name name =>
    rw [bindings_leaf] at fits ⊢
    exact accepts_name here ends fits
  | optional name =>
    rw [Pattern.bindings, bindings_leaf] at fits ⊢
    exact accepts_optionalName full here fits
  | tuple inner =>
    cases inner with
    | items parts each =>
      rcases unread_of_tokens here with ⟨lexeme, _, unread, token, -⟩
      rcases accepts_tuple accepts full each room here fits with ⟨stop, run, takes⟩
      refine ⟨stop, ?_, takes⟩
      rw [primary, get_bind, unread]
      simp only [token, advance_bind]
      rw [bind_of_ok _ run]
      rfl
  | bareCase head =>
    have apart : behind.head? ≠ some .dot := ends.head?_ne (by decide)
    rcases primary_of_case full head apart here with ⟨middle, takes, same⟩
    rcases accepts_bareCase _ _ (takes.tokens_eq here ▸ ends) with ⟨stop, run, takesNone⟩
    have all := takes.trans takesNone
    rw [List.append_nil] at all
    exact ⟨stop, same.trans run, all⟩
  | @payloadCase head qualifier name _ more payload derives inner =>
    rw [List.append_assoc] at here
    rw [List.length_append] at room
    have apart : (more ++ behind).head? ≠ some .dot := by
      cases inner
      intro next
      cases next
    rcases primary_of_case full derives apart here with ⟨middle, takes, same⟩
    rcases accepts_payload accepts full qualifier name inner (by omega) (takes.tokens_eq here)
      (fits.of_takes takes) with ⟨stop, run, takesMore⟩
    exact ⟨stop, same.trans run, takes.trans takesMore⟩
  | @namedCase _ more payload name inner =>
    rcases unread_of_tokens here with ⟨lexeme, _, unread, token, -⟩
    have next : start.tokens.head? = some (.identifier name) := by
      rw [here]
      rfl
    have left : start.advance.tokens = more ++ behind := by
      rw [tokens_advance, here]
      rfl
    have second : start.tokens[1]? = some .leftParen := by
      rw [tokens_second, left]
      cases inner
      rfl
    rcases accepts_payload accepts full none name inner (Nat.le_of_succ_le room) left
      (fits.of_takes (.advance next)) with ⟨stop, run, takes⟩
    refine ⟨stop, ?_, (Takes.advance next).trans takes⟩
    rw [primary, get_bind, unread]
    simp only [token, named, peek?_bind, second, allow_bind full, advance_bind]
    exact run
  | isType type => exact accepts_isType full type ends here
  | expression value => exact accepts_expressionPattern full value ends here

theorem Ends.casts {inner pattern : Pattern} {tokens behind : List Token}
    (ends : Ends ascriptionEnds behind) (derived : Casts inner tokens pattern) :
    Ends ascriptionEnds (tokens ++ behind) := by
  induction derived generalizing behind with
  | none => exact ends
  | cast _ _ induction =>
    rw [List.append_assoc]
    exact induction (.cons List.mem_cons_self _)

theorem Ends.ascription {inner pattern : Pattern} {tokens behind : List Token}
    (ends : Ends ascriptionEnds behind) (derived : Ascription inner tokens pattern) :
    Ends primaryEnds (tokens ++ behind) := by
  cases derived with
  | none => exact ends.of_ascription
  | some => exact .cons List.mem_cons_self _

theorem casts_of_derived (full : mode.context = .full) {inner pattern : Pattern}
    {tokens behind : List Token} (derived : Casts inner tokens pattern)
    (ends : Ends ascriptionEnds behind) {budget : Nat} {start : TokenStream}
    (here : start.tokens = tokens ++ behind) (enough : start.tokens.length ≤ budget) :
    ∃ stop left, Takes start tokens [] stop ∧ stop.tokens.length ≤ left ∧
      (casts mode inner budget).run start = (casts mode pattern left).run stop := by
  induction derived generalizing behind with
  | none => exact ⟨start, budget, .refl start, enough, rfl⟩
  | @cast tokens pattern typeTokens type _ derives induction =>
    rw [List.append_assoc, List.cons_append] at here
    rcases induction (.cons List.mem_cons_self _) here with ⟨middle, left, takes, room, same⟩
    have rest := takes.tokens_eq here
    have next : middle.tokens.head? = some .asKeyword := by rw [rest, List.head?_cons]
    have tail : middle.advance.tokens = typeTokens ++ behind := by
      rw [tokens_advance, rest, List.tail_cons]
    rcases accepts_type derives ends.of_ascription tail with ⟨stop, run, takesType⟩
    cases left with
    | zero =>
      rw [rest] at room
      cases room
    | succ left =>
      refine ⟨stop, left, takes.trans ((Takes.advance next).trans takesType), ?_, ?_⟩
      · rw [takesType.tokens_eq tail]
        rw [rest, List.length_cons, List.length_append] at room
        omega
      · rw [same]
        simp only [casts, next?_bind, next, allow_bind full, advance_bind]
        rw [bind_of_ok _ run]

theorem accepts_casts (full : mode.context = .full) {inner pattern : Pattern}
    {tokens behind : List Token} (derived : Casts inner tokens pattern)
    (ends : Ends itemEnds behind) {start : TokenStream} (here : start.tokens = tokens ++ behind) :
    Accepts (do casts mode inner (← remaining)) start tokens [] pattern := by
  rcases casts_of_derived full derived ends.of_item here (Nat.le_refl _) with
    ⟨stop, left, takes, -, same⟩
  refine ⟨stop, ?_, takes⟩
  rw [remaining_bind, same]
  cases left with
  | zero => rfl
  | succ left =>
    simp only [casts, next?_bind, takes.tokens_eq here]
    split
    · rename_i word
      exact absurd word (ends.head?_ne (by decide))
    · rfl

theorem accepts_annotated {inner pattern : Pattern} {head tokens behind : List Token}
    (derived : Ascription inner tokens pattern) (ends : Ends ascriptionEnds behind)
    {start : TokenStream} (here : start.tokens = head ++ (tokens ++ behind))
    (accepts : Accepts (primary nested mode) start head inner.bindings inner) :
    Accepts (annotated nested mode) start (head ++ tokens) inner.bindings pattern := by
  rcases accepts with ⟨middle, run, takes⟩
  have rest := takes.tokens_eq here
  cases derived with
  | none =>
    refine ⟨middle, ?_, by rwa [List.append_nil]⟩
    rw [annotated, bind_of_ok _ run, next?_bind, rest]
    split
    · rename_i colon
      exact absurd colon (ends.head?_ne (by decide))
    · rfl
  | @some typeTokens type annotatable derives =>
    have next : middle.tokens.head? = some .colon := by
      rw [rest]
      rfl
    have tail : middle.advance.tokens = typeTokens ++ behind := by
      rw [tokens_advance, rest]
      rfl
    rcases accepts_type derives ends.of_ascription tail with ⟨stop, runType, takesType⟩
    have all := takes.trans ((Takes.advance next).trans takesType)
    rw [List.append_nil, List.append_nil] at all
    refine ⟨stop, ?_, all⟩
    have allowed := (annotatable_iff inner).mpr annotatable
    simp only [annotated, bind_of_ok _ run, next?_bind, next, allowed]
    rw [advance_bind, bind_of_ok _ runType]
    rfl

theorem accepts_binding (accepts : NestedAccepts nested depth) (full : mode.context = .full)
    {mutable : Bool} {tokens behind : List Token} {pattern : Pattern}
    (derives : Derives .cast (some mutable) tokens pattern) (room : tokens.length ≤ depth)
    (ends : Ends itemEnds behind) {start : TokenStream}
    (here : start.tokens = keyword mutable :: (tokens ++ behind))
    (fits : Fits mode.uniqueNames pattern.bindings start) :
    Accepts (primary nested mode) start (keyword mutable :: tokens) pattern.bindings pattern := by
  rcases unread_of_tokens here with ⟨lexeme, _, unread, token, -⟩
  have next : start.tokens.head? = some (keyword mutable) := by rw [here, List.head?_cons]
  have left : start.advance.tokens = tokens ++ behind := by
    rw [tokens_advance, here, List.tail_cons]
  rcases accepts { mode with mutability := some mutable } full tokens pattern derives room _ _ left
    ends (fits.of_takes (.advance next)) with ⟨stop, run, takes⟩
  refine ⟨stop, ?_, (Takes.advance next).trans takes⟩
  rw [primary, get_bind, unread]
  cases mutable with
  | false =>
    have word : lexeme.token = .letKeyword := token
    simp only [word]
    exact run
  | true =>
    have word : lexeme.token = .varKeyword := token
    simp only [word]
    exact run

theorem accepts_patternWithin (full : mode.context = .full) {inner middle pattern : Pattern}
    {head ascription casts behind : List Token} (ascribed : Ascription inner ascription middle)
    (cast : Casts middle casts pattern) (ends : Ends itemEnds behind) {start : TokenStream}
    (here : start.tokens = head ++ ascription ++ casts ++ behind)
    (accepts : Accepts (primary (patternWithin depth) mode) start head inner.bindings inner) :
    Accepts (patternWithin (depth + 1) mode) start (head ++ ascription ++ casts) pattern.bindings
      pattern := by
  rw [List.append_assoc] at here
  have first : start.tokens = head ++ (ascription ++ (casts ++ behind)) := by
    rw [here, List.append_assoc]
  rcases accepts_annotated ascribed (ends.of_item.casts cast) first accepts with
    ⟨last, run, takes⟩
  rcases accepts_casts full cast ends (takes.tokens_eq here) with ⟨stop, runCasts, takesCasts⟩
  have all := takes.trans takesCasts
  rw [List.append_nil, ← ascribed.bindings_eq, ← cast.bindings_eq] at all
  refine ⟨stop, ?_, all⟩
  rw [patternWithin, bind_of_ok _ run]
  exact runCasts

end

theorem nestedAccepts_patternWithin (depth : Nat) : NestedAccepts (patternWithin depth) depth := by
  induction depth with
  | zero =>
    intro mode full tokens pattern derives room
    rcases derives.starts with ⟨first, rest, rfl, -⟩
    cases room
  | succ depth induction =>
    intro mode full tokens pattern derives room start behind here ends fits
    rcases derives.shape with ⟨mutable, rest, rfl, within⟩ | unbound
    · have accepts := accepts_binding induction full within (Nat.le_of_succ_le_succ room) ends here
        fits
      have all := accepts_patternWithin full .none .none ends (by simpa using here) accepts
      simpa using all
    · rcases unbound with
        ⟨head, ascription, casts, inner, middle, rfl, derives, plain, ascribed, cast⟩
      rw [List.length_append, List.length_append] at room
      apply accepts_patternWithin full ascribed cast ends here
      have first : start.tokens = head ++ (ascription ++ (casts ++ behind)) := by
        rw [here, List.append_assoc, List.append_assoc]
      have follows := (ends.of_item.casts cast).ascription ascribed
      rw [cast.bindings_eq, ascribed.bindings_eq] at fits
      exact accepts_primary induction full derives plain (by omega) follows first fits

end PatternClauses.Reader
