import Std.Data.ExtTreeMap

/-!
# Indexed lists

A list whose items have keys, beside a map from each key to the place of its item.  The two are
kept in step when an item is put in the place of the one with its key, when one with a new key is
put behind the others, and when the list is cut short.
-/

namespace PatternClauses

/-- Put an item in the place of the one with its key, or behind the others if there is none. -/
def put [DecidableEq κ] (key : α → κ) : List α → α → List α
  | [], item => [item]
  | old :: rest, item => if key old = key item then item :: rest else old :: put key rest item

/-- The map leads from the key of every item to its place, and from no other key anywhere. -/
def Indexes [Ord κ] [Std.TransOrd κ] (key : α → κ) (places : Std.ExtTreeMap κ Nat)
    (items : List α) : Prop :=
  ∀ (wanted : κ) (place : Nat),
    places[wanted]? = some place ↔ (items[place]?).map key = some wanted

section

variable [DecidableEq κ] {key : α → κ}

theorem find?_put (items : List α) (item : α) (wanted : κ) :
    (put key items item).find? (fun other => key other = wanted) =
      if key item = wanted then some item else items.find? fun other => key other = wanted := by
  induction items with
  | nil => by_cases same : key item = wanted <;> simp [put, same]
  | cons old rest induction =>
    by_cases replaced : key old = key item
    · by_cases same : key item = wanted <;> simp [put, replaced, same]
    · by_cases same : key item = wanted
      · subst same
        simp [put, replaced, induction]
      · by_cases first : key old = wanted
        · subst first
          simp [put, replaced, same]
        · simp [put, replaced, first, induction, same]

theorem map_put (items : List α) (item : α) :
    (put key items item).map key =
      if key item ∈ items.map key then items.map key else items.map key ++ [key item] := by
  induction items with
  | nil => simp [put]
  | cons old rest induction =>
    by_cases replaced : key old = key item
    · simp [put, replaced]
    · rw [put, if_neg replaced, List.map_cons, induction]
      by_cases later : key item ∈ rest.map key <;> simp [later, Ne.symm replaced]

theorem find?_foldl_put (added items : List α) (wanted : κ) :
    (added.foldl (put key) items).find? (fun other => key other = wanted) =
      (added.reverse.find? fun other => key other = wanted).or
        (items.find? fun other => key other = wanted) := by
  induction added generalizing items with
  | nil => rfl
  | cons item rest induction =>
    rw [List.foldl_cons, induction, find?_put, List.reverse_cons, List.find?_append,
      Option.or_assoc]
    by_cases same : key item = wanted <;> simp [same]

theorem put_of_not_mem {items : List α} {item : α} (absent : key item ∉ items.map key) :
    put key items item = items ++ [item] := by
  induction items with
  | nil => rfl
  | cons old rest induction =>
    rw [List.map_cons, List.mem_cons, not_or] at absent
    rw [put, if_neg (Ne.symm absent.1), induction absent.2, List.cons_append]

theorem put_eq_set_of_nodup {items : List α} {item old : α} {place : Nat}
    (here : items[place]? = some old) (same : key old = key item)
    (distinct : (items.map key).Nodup) : put key items item = items.set place item := by
  induction items generalizing place with
  | nil => cases here
  | cons first rest induction =>
    rw [List.map_cons, List.nodup_cons] at distinct
    cases place with
    | zero =>
      cases here
      rw [put, if_pos same, List.set_cons_zero]
    | succ place =>
      rw [List.getElem?_cons_succ] at here
      have other : key first ≠ key item := fun equal =>
        distinct.1 (equal ▸ same ▸ List.mem_map_of_mem (List.mem_of_getElem? here))
      rw [put, if_neg other, List.set_cons_succ, induction here distinct.2]

end

namespace Indexes

variable [Ord κ] [Std.TransOrd κ] {key : α → κ} {places : Std.ExtTreeMap κ Nat} {items : List α}

theorem nil : Indexes key (∅ : Std.ExtTreeMap κ Nat) ([] : List α) := by
  intro wanted place
  simp

theorem place_of_getElem? (indexes : Indexes key places items) {place : Nat} {item : α}
    (here : items[place]? = some item) : places[key item]? = some place :=
  (indexes (key item) place).mpr (by rw [here]; rfl)

theorem exists_item (indexes : Indexes key places items) {wanted : κ} {place : Nat}
    (found : places[wanted]? = some place) :
    ∃ item, items[place]? = some item ∧ key item = wanted :=
  Option.map_eq_some_iff.mp ((indexes wanted place).mp found)

theorem getElem?_eq_none_iff (indexes : Indexes key places items) {wanted : κ} :
    places[wanted]? = none ↔ wanted ∉ items.map key := by
  constructor
  · intro free member
    rcases List.mem_map.mp member with ⟨item, inside, rfl⟩
    rcases List.getElem?_of_mem inside with ⟨place, here⟩
    rw [indexes.place_of_getElem? here] at free
    cases free
  · intro absent
    cases found : places[wanted]? with
    | none => rfl
    | some place =>
      rcases indexes.exists_item found with ⟨item, here, rfl⟩
      exact absurd (List.mem_map_of_mem (List.mem_of_getElem? here)) absent

theorem nodup (indexes : Indexes key places items) : (items.map key).Nodup := by
  rw [List.nodup_iff_pairwise_ne, List.pairwise_iff_getElem]
  intro first second firstInside secondInside earlier same
  rw [List.length_map] at firstInside secondInside
  rw [List.getElem_map, List.getElem_map] at same
  have one := indexes.place_of_getElem? (List.getElem?_eq_getElem firstInside)
  have other := indexes.place_of_getElem? (List.getElem?_eq_getElem secondInside)
  rw [same, other] at one
  cases one
  exact Nat.lt_irrefl _ earlier

theorem bind_getElem?_eq_find? [DecidableEq κ] (indexes : Indexes key places items) (wanted : κ) :
    places[wanted]?.bind (items[·]?) = items.find? fun item => key item = wanted := by
  cases found : items.find? fun item => key item = wanted with
  | none =>
    have absent : wanted ∉ items.map key := by simpa using found
    rw [indexes.getElem?_eq_none_iff.mpr absent]
    rfl
  | some item =>
    have same : key item = wanted := by simpa using List.find?_some found
    rcases List.getElem?_of_mem (List.mem_of_find?_eq_some found) with ⟨place, here⟩
    have placed := indexes.place_of_getElem? here
    rw [same] at placed
    rw [placed]
    exact here

theorem find?_eq_some_iff [DecidableEq κ] (indexes : Indexes key places items) {wanted : κ}
    {item : α} :
    (items.find? fun other => key other = wanted) = some item ↔
      item ∈ items ∧ key item = wanted := by
  constructor
  · intro found
    exact ⟨List.mem_of_find?_eq_some found, by simpa using List.find?_some found⟩
  · rintro ⟨member, rfl⟩
    rcases List.getElem?_of_mem member with ⟨place, here⟩
    rw [← indexes.bind_getElem?_eq_find?, indexes.place_of_getElem? here]
    exact here

/-! ## Changes -/

theorem put_eq_set [DecidableEq κ] (indexes : Indexes key places items) {item : α} {place : Nat}
    (found : places[key item]? = some place) : put key items item = items.set place item := by
  rcases indexes.exists_item found with ⟨old, here, same⟩
  exact put_eq_set_of_nodup here same indexes.nodup

theorem put_eq_append [DecidableEq κ] (indexes : Indexes key places items) {item : α}
    (free : places[key item]? = none) : put key items item = items ++ [item] :=
  put_of_not_mem (indexes.getElem?_eq_none_iff.mp free)

theorem append [Std.LawfulEqOrd κ] (indexes : Indexes key places items) {item : α}
    (fresh : key item ∉ items.map key) :
    Indexes key (places.insert (key item) items.length) (items ++ [item]) := by
  intro wanted place
  rw [Std.ExtTreeMap.getElem?_insert]
  by_cases same : key item = wanted
  · subst same
    rw [if_pos Std.compare_self, Option.some.injEq]
    constructor
    · rintro rfl
      rw [List.getElem?_concat_length]
      rfl
    · intro found
      rcases Option.map_eq_some_iff.mp found with ⟨other, here, equal⟩
      rcases Nat.lt_trichotomy items.length place with beyond | last | inside
      · rw [List.getElem?_eq_none (by simp; omega)] at here
        cases here
      · exact last
      · rw [List.getElem?_append_left inside] at here
        exact absurd (equal ▸ List.mem_map_of_mem (List.mem_of_getElem? here)) fresh
  · have other : ¬ compare (key item) wanted = .eq := fun equal =>
      same (Std.LawfulEqOrd.eq_of_compare equal)
    rw [if_neg other, indexes wanted place]
    rcases Nat.lt_trichotomy items.length place with beyond | last | inside
    · rw [List.getElem?_eq_none (Nat.le_of_lt beyond), List.getElem?_eq_none (by simp; omega)]
    · subst last
      rw [List.getElem?_eq_none (Nat.le_refl _), List.getElem?_concat_length, Option.map_some,
        Option.map_none]
      simp [same]
    · rw [List.getElem?_append_left inside]

theorem set (indexes : Indexes key places items) {item : α} {place : Nat}
    (found : places[key item]? = some place) : Indexes key places (items.set place item) := by
  rcases indexes.exists_item found with ⟨old, here, same⟩
  have keys : (items.set place item).map key = items.map key := by
    rcases List.getElem?_eq_some_iff.mp here with ⟨inside, rfl⟩
    rw [List.map_set, ← same, ← List.getElem_map key (h := by simpa using inside),
      List.set_getElem_self]
  intro wanted other
  rw [indexes wanted other, ← List.getElem?_map, ← List.getElem?_map, keys]

theorem take [DecidableEq κ] [Std.LawfulEqOrd κ] (indexes : Indexes key places items) (count : Nat)
    {kept : Std.ExtTreeMap κ Nat}
    (erased : ∀ wanted : κ, kept[wanted]? =
      if wanted ∈ (items.drop count).map key then none else places[wanted]?) :
    Indexes key kept (items.take count) := by
  intro wanted place
  rw [erased, List.getElem?_take]
  constructor
  · intro found
    split at found
    · cases found
    · rename_i stays
      rcases indexes.exists_item found with ⟨item, here, rfl⟩
      have inside : place < count := by
        apply Nat.lt_of_not_le
        intro beyond
        have dropped : (items.drop count)[place - count]? = some item := by
          rw [List.getElem?_drop, Nat.add_sub_cancel' beyond]
          exact here
        exact stays (List.mem_map_of_mem (List.mem_of_getElem? dropped))
      rw [if_pos inside, here]
      rfl
  · intro found
    rcases Option.map_eq_some_iff.mp found with ⟨item, here, rfl⟩
    split at here
    · rename_i inside
      have placed := indexes.place_of_getElem? here
      have stays : key item ∉ (items.drop count).map key := by
        intro dropped
        rcases List.mem_map.mp dropped with ⟨other, member, same⟩
        rcases List.getElem?_of_mem member with ⟨distance, there⟩
        rw [List.getElem?_drop] at there
        have again := indexes.place_of_getElem? there
        rw [same, placed] at again
        cases again
        omega
      rw [if_neg stays]
      exact placed
    · cases here

end Indexes

end PatternClauses
