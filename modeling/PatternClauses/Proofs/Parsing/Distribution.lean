import PatternClauses.Proofs.Lexing.Spelling
import PatternClauses.Proofs.Parsing.Irrefutable
import PatternClauses.Proofs.Parsing.Language

/-!
# Distribution of binding forms

A `let` or `var` in front of a pattern stands for one in front of each of its names, except for
those that have one already.  The parser hands the keyword down to the names; here the pattern that
is read without the keyword is changed as a whole, and the two agree.
-/

namespace PatternClauses

open Grammar

namespace Pattern

mutual

/-- Every name becomes a binding, unless it stands under a binding form. -/
def distributed (mutable : Bool) : Pattern → Pattern
  | .identifier name => .binding (.identifier name) mutable
  | .tuple items => .tuple (distributedEach mutable items)
  | .enumCase qualifier name none => .enumCase qualifier name none
  | .enumCase qualifier name (some payload) =>
    .enumCase qualifier name (some (payload.distributed mutable))
  | .optional inner => .optional (inner.distributed mutable)
  | .cast inner type => .cast (inner.distributed mutable) type
  | .annotated inner type => .annotated (inner.distributed mutable) type
  | .binding inner innerMutable => .binding inner innerMutable
  | .wildcard => .wildcard
  | .isType type => .isType type
  | .expression value => .expression value

def distributedEach (mutable : Bool) : List Pattern → List Pattern
  | [] => []
  | item :: rest => item.distributed mutable :: distributedEach mutable rest

end

@[simp] theorem distributedEach_eq_map (mutable : Bool) (items : List Pattern) :
    distributedEach mutable items = items.map (distributed mutable) := by
  induction items with
  | nil => rfl
  | cons item rest induction => simp [distributedEach, induction]

example : distributed true (.tuple [.identifier "x", .binding (.identifier "y") false]) =
    .tuple [.binding (.identifier "x") true, .binding (.identifier "y") false] := by
  decide

variable {mutable : Bool}

theorem distributed_ofItems (items : List Pattern) :
    (ofItems items).distributed mutable = ofItems (items.map (distributed mutable)) := by
  match items with
  | [] => rfl
  | [item] => rfl
  | first :: second :: rest => simp [ofItems, distributed]

theorem annotatable_distributed_iff (pattern : Pattern) :
    Annotatable (pattern.distributed mutable) ↔ Annotatable pattern := by
  rw [← Reader.annotatable_iff, ← Reader.annotatable_iff]
  cases pattern with
  | enumCase qualifier name payload => cases payload <;> simp [distributed, Reader.isAnnotatable]
  | _ => simp [distributed, Reader.isAnnotatable]

theorem bindings_distributed (pattern : Pattern) :
    (pattern.distributed mutable).bindings = pattern.bindings := by
  induction pattern with
  | wildcard | identifier | binding | isType | expression => simp [distributed, bindings]
  | optional inner induction | cast inner type induction | annotated inner type induction =>
    simpa [distributed, bindings] using induction
  | tuple items induction =>
    simp only [distributed, bindings, distributedEach_eq_map, bindingsEach_eq_flatMap,
      List.flatMap_map]
    exact List.flatMap_congr induction
  | enumCase qualifier name payload induction =>
    cases payload with
    | none => simp [distributed, bindings]
    | some payload => simpa [distributed, bindings] using induction payload rfl

theorem isRefutable_distributed (pattern : Pattern) :
    (pattern.distributed mutable).isRefutable = pattern.isRefutable := by
  induction pattern with
  | wildcard | identifier | binding | isType | expression | optional | cast =>
    simp [distributed, isRefutable]
  | annotated inner type induction => simpa [distributed, isRefutable] using induction
  | tuple items induction =>
    simp only [distributed, isRefutable, distributedEach_eq_map, anyRefutable_eq_any, List.any_map]
    rw [Bool.eq_iff_iff, List.any_eq_true, List.any_eq_true]
    exact exists_congr fun item => and_congr_right fun member => by
      rw [Function.comp_apply, induction item member]
  | enumCase qualifier name payload => cases payload <;> simp [distributed, isRefutable]

end Pattern

namespace Grammar

open Pattern

variable {mutable : Bool}

/-! ## Derivations under a binding form -/

theorem Derives.distributed_eq_self {outer : Bool}
    (derives : Derives phrase (some outer) tokens pattern) :
    pattern.distributed mutable = pattern := by
  generalize bound : some outer = mutability at derives
  induction derives generalizing outer with
  | annotated _ induction | primary _ induction | tuple _ induction => exact induction bound
  | cast _ _ induction | ascription _ _ _ induction => rw [distributed, induction bound]
  | wildcard | bareCase | isType | expression => rw [distributed]
  | name | optional =>
    cases bound
    rfl
  | binding _ _ induction => exact induction rfl
  | items items _ induction =>
    have each : ∀ pattern ∈ items.map (·.2), pattern.distributed mutable = pattern := by
      intro pattern member
      rcases List.mem_map.mp member with ⟨item, inside, rfl⟩
      exact induction item inside bound
    rw [distributed_ofItems, List.map_congr_left each, List.map_id']
  | payloadCase _ _ induction | namedCase _ _ induction => rw [distributed, induction bound]

theorem Derives.distributed (derives : Derives phrase none tokens pattern) :
    Derives phrase (some mutable) tokens (pattern.distributed mutable) := by
  generalize unbound : none = mutability at derives
  induction derives with
  | annotated _ induction => exact .annotated (induction unbound)
  | primary _ induction => exact .primary (induction unbound)
  | tuple _ induction => exact .tuple (induction unbound)
  | cast _ type induction => exact .cast (induction unbound) type
  | ascription _ annotatable type induction =>
    exact .ascription (induction unbound) ((annotatable_distributed_iff _).mpr annotatable) type
  | wildcard => exact .wildcard
  | name name =>
    cases unbound
    exact .name name
  | optional name =>
    cases unbound
    exact .optional name
  | binding inner derives =>
    rw [derives.distributed_eq_self]
    exact .binding inner derives
  | items items _ induction =>
    let change (item : List Token × Pattern) := (item.1, item.2.distributed mutable)
    have each : ∀ item ∈ items.map change, Derives .cast (some mutable) item.1 item.2 :=
      List.forall_mem_map.mpr fun item member => induction item member unbound
    have derives := Derives.items (items.map change) each
    simpa [distributed_ofItems, Function.comp_def] using derives
  | bareCase head => exact .bareCase head
  | payloadCase head _ induction => exact .payloadCase head (induction unbound)
  | namedCase name _ induction => exact .namedCase name (induction unbound)
  | isType type => exact .isType type
  | expression value => exact .expression value

theorem Derives.exists_distributed (derives : Derives phrase (some mutable) tokens pattern) :
    ∃ inner, Derives phrase none tokens inner ∧ inner.distributed mutable = pattern := by
  generalize bound : some mutable = mutability at derives
  induction derives with
  | annotated _ induction =>
    rcases induction bound with ⟨inner, derives, rfl⟩
    exact ⟨inner, .annotated derives, rfl⟩
  | primary _ induction =>
    rcases induction bound with ⟨inner, derives, rfl⟩
    exact ⟨inner, .primary derives, rfl⟩
  | tuple _ induction =>
    rcases induction bound with ⟨inner, derives, rfl⟩
    exact ⟨inner, .tuple derives, rfl⟩
  | cast _ type induction =>
    rcases induction bound with ⟨inner, derives, rfl⟩
    exact ⟨_, .cast derives type, rfl⟩
  | ascription _ annotatable type induction =>
    rcases induction bound with ⟨inner, derives, rfl⟩
    rw [annotatable_distributed_iff] at annotatable
    exact ⟨_, .ascription derives annotatable type, rfl⟩
  | wildcard => exact ⟨_, .wildcard, rfl⟩
  | name name =>
    cases bound
    exact ⟨_, .name name, rfl⟩
  | optional name =>
    cases bound
    exact ⟨_, .optional name, rfl⟩
  | binding inner derives => exact ⟨_, .binding inner derives, derives.distributed_eq_self⟩
  | items items _ induction =>
    have each : ∀ item ∈ items, ∃ part : List Token × Pattern,
        Derives .cast none part.1 part.2 ∧ (part.1, part.2.distributed mutable) = item := by
      intro item member
      rcases induction item member bound with ⟨inner, derives, same⟩
      exact ⟨(item.1, inner), derives, by rw [same]⟩
    rcases exists_map_eq each with ⟨parts, derives, rfl⟩
    refine ⟨.ofItems (parts.map (·.2)), ?_, ?_⟩
    · simpa [Function.comp_def] using Derives.items parts derives
    · simp [distributed_ofItems, Function.comp_def]
  | bareCase head => exact ⟨_, .bareCase head, rfl⟩
  | payloadCase head _ induction =>
    rcases induction bound with ⟨inner, derives, rfl⟩
    exact ⟨_, .payloadCase head derives, rfl⟩
  | namedCase name _ induction =>
    rcases induction bound with ⟨inner, derives, rfl⟩
    exact ⟨_, .namedCase name derives, rfl⟩
  | isType type => exact ⟨_, .isType type, rfl⟩
  | expression value => exact ⟨_, .expression value, rfl⟩

theorem keyword_inj {one other : Bool} : keyword one = keyword other ↔ one = other := by
  cases one <;> cases other <;> decide

/-- The grammar reads a keyword in front as a binding form around all that follows. -/
theorem derives_keyword_iff :
    Derives .cast none (keyword mutable :: tokens) pattern ↔
      ∃ inner, Derives .cast none tokens inner ∧ pattern = inner.distributed mutable := by
  constructor
  · intro derives
    rcases derives.shape with ⟨other, rest, same, inside⟩ | unbound
    · obtain ⟨front, rfl⟩ := List.cons.inj same
      cases keyword_inj.mp front
      rcases inside.exists_distributed with ⟨inner, derives, distributed⟩
      exact ⟨inner, derives, distributed.symm⟩
    · rcases unbound with ⟨head, behind, casts, base, annotated, same, primary, differs, -, -⟩
      rcases primary.starts with ⟨first, rest, rfl, -⟩
      cases same
      exact absurd rfl (differs mutable)
  · rintro ⟨inner, derives, rfl⟩
    exact .annotated (.primary (.binding mutable derives.distributed))

end Grammar

namespace Pattern

def keywordText (mutable : Bool) : String := if mutable then "var" else "let"

theorem lexes_keyword_iff (mutable : Bool) {source : String} {tokens : List Token} :
    Lexes (keywordText mutable ++ " " ++ source).toList tokens ↔
      ∃ later, tokens = keyword mutable :: later ∧ Lexes source.toList later := by
  rw [String.toList_append]
  cases mutable with
  | false => exact lexes_word_iff (by decide)
  | true => exact lexes_word_iff (by decide)

theorem parse_full_keyword_iff {mutable : Bool} {source : String} {pattern : Pattern} :
    parse .full (keywordText mutable ++ " " ++ source) = .ok pattern ↔
      ∃ inner, parse .full source = .ok inner ∧ pattern = inner.distributed mutable := by
  simp only [parse_full_eq_ok_iff, lexes_keyword_iff]
  constructor
  · rintro ⟨⟨_, ⟨tokens, rfl, lexes⟩, derives⟩, distinct⟩
    rcases derives_keyword_iff.mp derives with ⟨inner, inside, rfl⟩
    rw [bindings_distributed] at distinct
    exact ⟨inner, ⟨⟨tokens, lexes, inside⟩, distinct⟩, rfl⟩
  · rintro ⟨inner, ⟨⟨tokens, lexes, derives⟩, distinct⟩, rfl⟩
    refine ⟨⟨_, ⟨tokens, rfl, lexes⟩, derives_keyword_iff.mpr ⟨inner, derives, rfl⟩⟩, ?_⟩
    rwa [bindings_distributed]

/-- A source with a keyword in front is read as the pattern of the source with the keyword handed
to its names, in either context. -/
theorem parse_keyword_distributes (context : PatternContext) (mutable : Bool) (source : String)
    (pattern : Pattern) :
    parse context (keywordText mutable ++ " " ++ source) = .ok pattern ↔
      ∃ inner, parse context source = .ok inner ∧ pattern = inner.distributed mutable := by
  cases context with
  | full => exact parse_full_keyword_iff
  | bindingOnly =>
    simp only [parse_bindingOnly_eq_ok_iff, parse_full_keyword_iff]
    constructor
    · rintro ⟨⟨inner, read, rfl⟩, irrefutable⟩
      rw [isRefutable_distributed] at irrefutable
      exact ⟨inner, ⟨read, irrefutable⟩, rfl⟩
    · rintro ⟨inner, ⟨read, irrefutable⟩, rfl⟩
      exact ⟨⟨inner, read, rfl⟩, by rwa [isRefutable_distributed]⟩

end Pattern

end PatternClauses
