/-
**Computations that may refuse.** Checks and conversions for `Except`, and the lemmas that take a
sequence of checks apart.
-/

import Mathlib.Tactic.Common

namespace Result

variable {condition : Bool}

variable {ε δ α β : Type}

/-- Refuses unless a condition holds. -/
def ensure (condition : Bool) (reason : ε) : Except ε Unit :=
  if condition then .ok () else .error reason

/-- The value of an optional, or an error. -/
def orError (reason : ε) : Option α → Except ε α
  | some value => .ok value
  | none => .error reason

/-- Rewrites the error. -/
def mapError (rewrite : ε → δ) : Except ε α → Except δ α
  | .ok value => .ok value
  | .error reason => .error (rewrite reason)

/-- A fold that may refuse at every element. -/
def tryFold (combine : β → α → Except ε β) : β → List α → Except ε β
  | total, [] => .ok total
  | total, first :: rest => do
    let next ← combine total first
    tryFold combine next rest

/-- A map that may refuse at every element. -/
def tryMap (convert : α → Except ε β) : List α → Except ε (List β)
  | [] => .ok []
  | first :: rest => do
    let value ← convert first
    let values ← tryMap convert rest
    return value :: values

@[simp] theorem ensure_eq_ok {reason : ε} {value : Unit} :
    ensure condition reason = .ok value ↔ condition = true := by
  cases condition <;> simp [ensure]

@[simp] theorem ensure_eq_error {reason other : ε} :
    ensure condition reason = .error other ↔ condition = false ∧ reason = other := by
  cases condition <;> simp [ensure]

@[simp] theorem orError_some (reason : ε) (value : α) : orError reason (some value) = .ok value :=
  rfl

@[simp] theorem orError_eq_ok {reason : ε} {value : Option α} {result : α} :
    orError reason value = .ok result ↔ value = some result := by
  cases value <;> simp [orError]

@[simp] theorem mapError_eq_ok {rewrite : ε → δ} {value : Except ε α} {result : α} :
    mapError rewrite value = .ok result ↔ value = .ok result := by
  cases value <;> simp [mapError]

/-- A sequence succeeds when both its parts do. -/
@[simp] theorem bind_eq_ok {first : Except ε α} {next : α → Except ε β} {result : β} :
    (first >>= next) = .ok result ↔ ∃ value, first = .ok value ∧ next value = .ok result := by
  cases first with
  | ok value => simp [bind, Except.bind]
  | error reason => simp [bind, Except.bind]

@[simp] theorem pure_eq_ok {value result : α} :
    (pure value : Except ε α) = .ok result ↔ value = result := by
  simp [pure, Except.pure]

@[simp] theorem map_eq_ok {value : Except ε α} {convert : α → β} {result : β} :
    (convert <$> value) = .ok result ↔ ∃ a, value = .ok a ∧ convert a = result := by
  cases value <;> simp [Functor.map, Except.map]

@[simp] theorem exists_eq_ok_unit {value : Except ε Unit} :
    (∃ result, value = .ok result) ↔ value = .ok () :=
  ⟨fun ⟨_, equal⟩ => equal, fun equal => ⟨(), equal⟩⟩

@[simp] theorem ok_bind (value : α) (next : α → Except ε β) :
    ((.ok value : Except ε α) >>= next) = next value := rfl

theorem ensure_bind_of_true {reason : ε} {next : Unit → Except ε β} (holds : condition = true) :
    (ensure condition reason >>= next) = next () := by
  subst holds
  rfl

@[simp] theorem tryFold_nil (combine : β → α → Except ε β) (total : β) :
    tryFold combine total [] = .ok total := rfl

theorem tryFold_cons (combine : β → α → Except ε β) (total : β) (first : α) (rest : List α) :
    tryFold combine total (first :: rest) =
      (combine total first >>= fun next => tryFold combine next rest) := rfl

/-- A fold over a concatenation is one fold after the other. -/
theorem tryFold_append (combine : β → α → Except ε β) (total : β) (left right : List α) :
    tryFold combine total (left ++ right) =
      (tryFold combine total left >>= fun middle => tryFold combine middle right) := by
  induction left generalizing total with
  | nil => rfl
  | cons first rest ih =>
    rw [List.cons_append, tryFold_cons, tryFold_cons]
    cases combine total first with
    | ok next => exact ih next
    | error reason => rfl

/-- A fold whose every step succeeds is the plain fold. -/
theorem tryFold_eq_foldl {combine : β → α → Except ε β} (plain : β → α → β)
    (items : List α) (total : β)
    (succeeds : ∀ total item, item ∈ items → combine total item = .ok (plain total item)) :
    tryFold combine total items = .ok (items.foldl plain total) := by
  induction items generalizing total with
  | nil => rfl
  | cons first rest ih =>
    rw [tryFold_cons, succeeds total first List.mem_cons_self, ok_bind,
      ih _ fun total item member => succeeds total item (List.mem_cons_of_mem _ member)]
    rfl

theorem tryMap_eq_map {convert : α → Except ε β} (plain : α → β) (items : List α)
    (succeeds : ∀ item ∈ items, convert item = .ok (plain item)) :
    tryMap convert items = .ok (items.map plain) := by
  induction items with
  | nil => rfl
  | cons first rest ih =>
    rw [tryMap, succeeds first List.mem_cons_self, ok_bind,
      ih fun item member => succeeds item (List.mem_cons_of_mem _ member)]
    rfl

theorem tryMap_cons_eq_ok {convert : α → Except ε β} {first : α} {rest : List α} {values : List β} :
    tryMap convert (first :: rest) = .ok values ↔
      ∃ value others, convert first = .ok value ∧ tryMap convert rest = .ok others ∧
        value :: others = values := by
  simp only [tryMap, bind_eq_ok, pure_eq_ok]
  exact ⟨fun ⟨value, head, others, tail, joined⟩ => ⟨value, others, head, tail, joined⟩,
    fun ⟨value, others, head, tail, joined⟩ => ⟨value, head, others, tail, joined⟩⟩

/-- A map of a concatenation is one map after the other. -/
theorem tryMap_append_eq_ok {convert : α → Except ε β} {left right : List α} {values : List β} :
    tryMap convert (left ++ right) = .ok values ↔
      ∃ before after, tryMap convert left = .ok before ∧ tryMap convert right = .ok after ∧
        before ++ after = values := by
  induction left generalizing values with
  | nil =>
    constructor
    · intro mapped
      exact ⟨[], values, rfl, mapped, rfl⟩
    · rintro ⟨before, after, isEmpty, mapped, rfl⟩
      cases isEmpty
      exact mapped
  | cons first rest ih =>
    rw [List.cons_append, tryMap_cons_eq_ok]
    constructor
    · rintro ⟨value, others, head, tail, rfl⟩
      obtain ⟨before, after, mapped, remaining, rfl⟩ := ih.mp tail
      exact ⟨value :: before, after, tryMap_cons_eq_ok.mpr ⟨value, before, head, mapped, rfl⟩,
        remaining, rfl⟩
    · rintro ⟨before, after, mapped, remaining, rfl⟩
      obtain ⟨value, others, head, tail, rfl⟩ := tryMap_cons_eq_ok.mp mapped
      exact ⟨value, others ++ after, head, ih.mpr ⟨others, after, tail, remaining, rfl⟩, rfl⟩

theorem tryMap_congr {convert other : α → Except ε β} {items : List α}
    (same : ∀ item ∈ items, convert item = other item) :
    tryMap convert items = tryMap other items := by
  induction items with
  | nil => rfl
  | cons first rest ih =>
    rw [tryMap, tryMap, same first List.mem_cons_self,
      ih fun item member => same item (List.mem_cons_of_mem _ member)]

/-- A map succeeds with the values of its elements. -/
theorem tryMap_eq_ok_iff {convert : α → Except ε β} {becomes : α → β → Prop} {items : List α}
    {values : List β} (each : ∀ item ∈ items, ∀ value, convert item = .ok value ↔ becomes item value) :
    tryMap convert items = .ok values ↔ List.Forall₂ becomes items values := by
  induction items generalizing values with
  | nil =>
    constructor
    · intro mapped
      cases mapped
      exact .nil
    · rintro ⟨⟩
      rfl
  | cons first rest ih =>
    have ofFirst := each first List.mem_cons_self
    have ofRest := fun item member => each item (List.mem_cons_of_mem first member)
    rw [tryMap_cons_eq_ok]
    constructor
    · rintro ⟨value, others, head, tail, rfl⟩
      exact .cons ((ofFirst value).mp head) ((ih ofRest).mp tail)
    · rintro (_ | ⟨head, tail⟩)
      exact ⟨_, _, (ofFirst _).mpr head, (ih ofRest).mpr tail, rfl⟩

theorem forall_of_tryMap_eq_ok {check : α → Except ε Unit} {items : List α} {values : List Unit}
    (checked : tryMap check items = .ok values) : ∀ item ∈ items, check item = .ok () := by
  induction items generalizing values with
  | nil => simp
  | cons first rest ih =>
    simp only [tryMap, bind_eq_ok, pure_eq_ok] at checked
    obtain ⟨_, head, _, tail, -⟩ := checked
    rintro item (_ | ⟨_, member⟩)
    · exact head
    · exact ih tail item member

/-- A list of checks succeeds when every check does. -/
theorem exists_tryMap_eq_ok {check : α → Except ε Unit} {items : List α} :
    (∃ values, tryMap check items = .ok values) ↔ ∀ item ∈ items, check item = .ok () :=
  ⟨fun ⟨_, checked⟩ => forall_of_tryMap_eq_ok checked,
    fun each => ⟨_, tryMap_eq_map (fun _ => ()) items each⟩⟩

/-- **The invariant rule of a fold.** What one step preserves holds at the end. -/
theorem tryFold_induction {combine : β → α → Except ε β} {items : List α} {start final : β}
    (invariant : β → Prop) (holds : invariant start)
    (kept : ∀ total item next, item ∈ items → invariant total → combine total item = .ok next →
      invariant next)
    (folded : tryFold combine start items = .ok final) : invariant final := by
  induction items generalizing start with
  | nil =>
    cases folded
    exact holds
  | cons first rest ih =>
    rw [tryFold_cons, bind_eq_ok] at folded
    obtain ⟨next, stepped, folded⟩ := folded
    exact ih (kept _ _ _ List.mem_cons_self holds stepped)
      (fun total item next member => kept total item next (List.mem_cons_of_mem _ member)) folded

/-- **The invariant rule of a fold**, with the elements that are done. -/
theorem tryFold_induction_done {combine : β → α → Except ε β} {items : List α} {start final : β}
    (invariant : List α → β → Prop) (holds : invariant [] start)
    (kept : ∀ done item rest total next, items = done ++ item :: rest → invariant done total →
      combine total item = .ok next → invariant (done ++ [item]) next)
    (folded : tryFold combine start items = .ok final) : invariant items final := by
  suffices general : ∀ (rest done : List α) (total : β), items = done ++ rest →
      invariant done total → tryFold combine total rest = .ok final → invariant items final by
    exact general items [] start rfl holds folded
  intro rest
  induction rest with
  | nil =>
    intro done total whole before folded
    cases folded
    rwa [whole, List.append_nil]
  | cons item rest ih =>
    intro done total whole before folded
    rw [tryFold_cons, bind_eq_ok] at folded
    obtain ⟨next, stepped, folded⟩ := folded
    exact ih (done ++ [item]) next (by rw [whole, List.append_assoc]; rfl)
      (kept done item rest total next whole before stepped) folded

/-- What every step establishes for its element, and no later step undoes, holds for all elements at
the end. -/
theorem tryFold_forall {combine : β → α → Except ε β} {items : List α} {start final : β}
    (holds : α → β → Prop)
    (established : ∀ total item next, item ∈ items → combine total item = .ok next →
      holds item next)
    (kept : ∀ total item next other, item ∈ items → other ∈ items → combine total item = .ok next →
      holds other total → holds other next)
    (folded : tryFold combine start items = .ok final) : ∀ item ∈ items, holds item final := by
  induction items generalizing start with
  | nil => simp
  | cons first rest ih =>
    rw [tryFold_cons, bind_eq_ok] at folded
    obtain ⟨next, stepped, folded⟩ := folded
    rintro item (_ | ⟨_, member⟩)
    · have begun := established _ _ _ List.mem_cons_self stepped
      exact tryFold_induction (holds first) begun (fun total item next member before stepped =>
        kept total item next first (List.mem_cons_of_mem _ member) List.mem_cons_self stepped before)
        folded
    · exact ih (fun total item next member => established total item next
        (List.mem_cons_of_mem _ member))
        (fun total item next other member otherMember => kept total item next other
          (List.mem_cons_of_mem _ member) (List.mem_cons_of_mem _ otherMember)) folded item member

/-! ### The errors of a computation -/

/-- Every error of a computation is of a kind. -/
def Errors (kind : ε → Prop) (value : Except ε α) : Prop := ∀ reason, value = .error reason → kind reason

section Errors

variable {kind : ε → Prop}

theorem errors_ok (value : α) : Errors kind (.ok value) := fun _ failed => nomatch failed

theorem errors_pure (value : α) : Errors kind (pure value : Except ε α) := errors_ok value

theorem errors_error {reason : ε} (isKind : kind reason) : Errors kind (.error reason : Except ε α) := by
  rintro _ ⟨⟩
  exact isKind

theorem errors_bind {first : Except ε α} {next : α → Except ε β} (head : Errors kind first)
    (tail : ∀ value, first = .ok value → Errors kind (next value)) : Errors kind (first >>= next) := by
  cases first with
  | ok value => exact tail value rfl
  | error reason => exact errors_error (head reason rfl)

theorem errors_ensure {reason : ε} (isKind : condition = false → kind reason) :
    Errors kind (ensure condition reason) := by
  intro other failed
  obtain ⟨refused, rfl⟩ := ensure_eq_error.mp failed
  exact isKind refused

theorem errors_orError {reason : ε} {value : Option α} (isKind : value = none → kind reason) :
    Errors kind (orError reason value) := by
  cases value with
  | some found => exact errors_ok found
  | none => exact errors_error (isKind rfl)

theorem errors_mapError {rewrite : δ → ε} {value : Except δ α}
    (isKind : ∀ reason, kind (rewrite reason)) : Errors kind (mapError rewrite value) := by
  cases value with
  | ok found => exact errors_ok found
  | error reason => exact errors_error (isKind reason)

theorem errors_tryFold {combine : β → α → Except ε β} {items : List α} {start : β}
    (each : ∀ total, ∀ item ∈ items, Errors kind (combine total item)) :
    Errors kind (tryFold combine start items) := by
  induction items generalizing start with
  | nil => exact errors_ok start
  | cons first rest ih =>
    exact errors_bind (each start first List.mem_cons_self) fun _ _ =>
      ih fun total item member => each total item (List.mem_cons_of_mem _ member)

end Errors

theorem exists_error_iff {value : Except ε α} :
    (∃ reason, value = .error reason) ↔ ∀ found, value ≠ .ok found := by
  cases value <;> simp

end Result
