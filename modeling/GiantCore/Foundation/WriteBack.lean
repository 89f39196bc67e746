import Mathlib.Data.List.Chain
import Mathlib.Tactic.Common

/-! # Write-back layers

A stack of caches over a base, seen at one key: each layer has an entry for the
key or none, and a read takes the first entry from the top or falls through to
the base. An entry is dirty when it may differ from what lies below it, and fresh
when nothing lies below it. Values that say that nothing is there are blank, and
a reader does not tell them apart from an absent value.

`Column` is what the flags promise. Reading, writing and merging a layer into the
one below keep the promise, and what is read changes only by writing. `Anchored` is
the part of it that a merge needs, and survives writes below the top layer.

A merge handles many keys in one loop; `foldlM_lookup` says that keys that occur
once do not disturb each other.
-/

namespace GiantCore.Foundation.WriteBack

/-- A cached value with its flags. -/
structure Entry (V : Type*) where
  value : V
  dirty : Bool := false
  fresh : Bool := false

section

variable {V : Type*} (blank : V → Bool)

/-- Nothing is there, as far as a reader can tell. -/
def Blank : Option V → Prop
  | none => True
  | some value => blank value = true

/-- Two values that a reader does not tell apart. -/
def Same (first second : Option V) : Prop := Blank blank first ∧ Blank blank second ∨ first = second

variable {blank}

@[refl] theorem Same.refl (value : Option V) : Same blank value value := Or.inr rfl

theorem Same.symm {first second : Option V} (same : Same blank first second) :
    Same blank second first := by
  rcases same with ⟨left, right⟩ | rfl
  · exact Or.inl ⟨right, left⟩
  · exact Same.refl _

theorem Same.trans {first second third : Option V} (left : Same blank first second)
    (right : Same blank second third) : Same blank first third := by
  rcases left with ⟨one, two⟩ | rfl
  · rcases right with ⟨-, three⟩ | rfl
    · exact Or.inl ⟨one, three⟩
    · exact Or.inl ⟨one, two⟩
  · exact right

theorem Same.blank_iff {first second : Option V} (same : Same blank first second) :
    Blank blank first ↔ Blank blank second := by
  rcases same with ⟨left, right⟩ | rfl
  · exact iff_of_true left right
  · exact Iff.rfl

/-- What is read at a key. -/
def readThrough (base : Option V) : List (Option (Entry V)) → Option V
  | [] => base
  | some entry :: _ => some entry.value
  | none :: lower => readThrough base lower

variable (blank)

/-- **What the flags promise.** An entry that is not dirty holds what is read below
it, nothing lies below a fresh one, and below one that is not fresh the next
layer has an entry too. -/
def Column (base : Option V) : List (Option (Entry V)) → Prop
  | [] => True
  | none :: lower => Column base lower
  | some entry :: lower =>
      (entry.dirty = false → readThrough base lower = some entry.value) ∧
        (entry.fresh = true → Blank blank (readThrough base lower)) ∧
        (entry.fresh = false → lower.head? ≠ some none) ∧ Column base lower

/-- The layers after a read: each layer above the first entry has a copy. -/
def fetch (base : Option V) : List (Option (Entry V)) → List (Option (Entry V))
  | [] => []
  | some entry :: lower => some entry :: lower
  | none :: lower =>
      (readThrough base lower).map (fun value => { value, fresh := blank value }) ::
        fetch base lower

variable {blank}

@[simp] theorem readThrough_fetch (base : Option V) (column : List (Option (Entry V))) :
    readThrough base (fetch blank base column) = readThrough base column := by
  induction column with
  | nil => rfl
  | cons top lower ih =>
      cases top with
      | some entry => rfl
      | none =>
          cases below : readThrough base lower with
          | none => simp only [fetch, readThrough, below, Option.map_none, ih]
          | some value => simp only [fetch, readThrough, below, Option.map_some]

/-- After a read that found something, every layer has an entry. -/
theorem head?_fetch {base : Option V} {column : List (Option (Entry V))} {value : V}
    (found : readThrough base column = some value) :
    (fetch blank base column).head? ≠ some none := by
  cases column with
  | nil => simp [fetch]
  | cons top lower =>
      cases top with
      | some entry => simp [fetch]
      | none =>
          rw [readThrough] at found
          simp [fetch, found]

/-- What is read stands in a layer or in the base. -/
theorem readThrough_eq_some {base : Option V} {column : List (Option (Entry V))} {value : V}
    (found : readThrough base column = some value) :
    (∃ entry, some entry ∈ column ∧ entry.value = value) ∨ base = some value := by
  induction column with
  | nil => exact Or.inr found
  | cons top lower ih =>
      cases top with
      | some entry => exact Or.inl ⟨entry, List.mem_cons_self, Option.some.inj found⟩
      | none =>
          rcases ih found with ⟨entry, member, same⟩ | below
          · exact Or.inl ⟨entry, List.mem_cons_of_mem _ member, same⟩
          · exact Or.inr below

/-- A read leaves copies of what is read, and nothing else. -/
theorem mem_fetch {base : Option V} {column : List (Option (Entry V))} {entry : Entry V}
    (member : some entry ∈ fetch blank base column) :
    some entry ∈ column ∨ readThrough base column = some entry.value := by
  induction column with
  | nil => exact (List.not_mem_nil member).elim
  | cons top lower ih =>
      cases top with
      | some first => exact Or.inl member
      | none =>
          rw [fetch, List.mem_cons] at member
          rcases member with copy | member
          · obtain ⟨value, found, rfl⟩ := Option.map_eq_some_iff.mp copy.symm
            exact Or.inr found
          · rcases ih member with older | copy
            · exact Or.inl (List.mem_cons_of_mem _ older)
            · exact Or.inr copy

theorem Column.fetch {base : Option V} {column : List (Option (Entry V))}
    (promise : Column blank base column) : Column blank base (fetch blank base column) := by
  induction column with
  | nil => exact trivial
  | cons top lower ih =>
      cases top with
      | some entry => exact promise
      | none =>
          have kept : Column blank base (WriteBack.fetch blank base lower) := ih promise
          cases below : readThrough base lower with
          | none =>
              simp only [WriteBack.fetch, below, Option.map_none]
              exact kept
          | some value =>
              simp only [WriteBack.fetch, below, Option.map_some]
              refine ⟨?_, ?_, ?_, kept⟩
              · intro _
                rw [readThrough_fetch, below]
              · intro fresh
                rw [readThrough_fetch, below]
                exact fresh
              · intro _
                exact head?_fetch below

variable (blank)

/-- The entry that a write starts from. -/
def opened (empty : V) (base : Option V) : Option (Entry V) → List (Option (Entry V)) → Entry V
  | some entry, _ => entry
  | none, lower =>
      match readThrough base lower with
      | none => { value := empty, fresh := true }
      | some value => { value, fresh := blank value }

/-- The entry after a write: a fresh one that became blank is dropped. -/
def closed (entry : Entry V) (value : V) : Option (Entry V) :=
  if entry.fresh && blank value then none else some { value, dirty := true, fresh := entry.fresh }

/-- The layers below after a write has looked for a value. -/
def looked (base : Option V) : Option (Entry V) → List (Option (Entry V)) → List (Option (Entry V))
  | some _, lower => lower
  | none, lower => fetch blank base lower

variable {blank} {base : Option V} {top : Option (Entry V)} {lower : List (Option (Entry V))}

@[simp] theorem readThrough_looked :
    readThrough base (looked blank base top lower) = readThrough base lower := by
  cases top with
  | some entry => rfl
  | none => exact readThrough_fetch base lower

/-- What a write starts from is what is read, or the empty value. -/
theorem same_opened {empty : V} (isBlank : blank empty = true) :
    Same blank (some (opened blank empty base top lower).value)
      (readThrough base (top :: lower)) := by
  cases top with
  | some entry => exact Same.refl _
  | none =>
      cases below : readThrough base lower with
      | none =>
          simp only [opened, readThrough, below]
          exact Or.inl ⟨isBlank, trivial⟩
      | some value =>
          simp only [opened, readThrough, below]
          exact Same.refl _

/-- **A write keeps the promise**, whatever the new value. -/
theorem Column.write {empty : V} (promise : Column blank base (top :: lower)) (value : V) :
    Column blank base (closed blank (opened blank empty base top lower) value ::
      looked blank base top lower) := by
  have below : Column blank base (looked blank base top lower) := by
    cases top with
    | some entry => exact promise.2.2.2
    | none => exact Column.fetch promise
  unfold closed
  split
  · exact below
  · refine ⟨?_, ?_, ?_, below⟩
    · intro clean
      cases clean
    · intro fresh
      rw [readThrough_looked]
      cases top with
      | some entry => exact promise.2.1 fresh
      | none =>
          cases found : readThrough base lower with
          | none => exact trivial
          | some old =>
              simp only [opened, found] at fresh
              exact fresh
    · intro stale
      cases top with
      | some entry => exact promise.2.2.1 stale
      | none =>
          cases found : readThrough base lower with
          | none =>
              simp only [opened, found] at stale
              cases stale
          | some old => exact head?_fetch found

/-- **A write is read back.** -/
theorem same_write {empty : V} (promise : Column blank base (top :: lower)) (value : V) :
    Same blank (some value) (readThrough base
      (closed blank (opened blank empty base top lower) value ::
        looked blank base top lower)) := by
  unfold closed
  split
  · rename_i dropped
    rw [Bool.and_eq_true] at dropped
    refine Or.inl ⟨dropped.2, ?_⟩
    rw [readThrough, readThrough_looked]
    cases top with
    | some entry => exact promise.2.1 dropped.1
    | none =>
        cases found : readThrough base lower with
        | none => exact trivial
        | some old =>
            have fresh := dropped.1
            simp only [opened, found] at fresh
            exact fresh
  · exact Same.refl _

variable (blank)

/-- The entry of a layer after the one above it is merged into it. Nothing is
returned where the merge would lose track of what lies below. -/
def merge (child : Entry V) (us : Option (Entry V)) : Option (Option (Entry V)) :=
  if child.dirty then
    match us with
    | none =>
        if blank child.value then some none
        else if child.fresh then some (some { value := child.value, dirty := true, fresh := true })
        else none
    | some entry =>
        if entry.fresh && blank child.value then some none
        else some (some { entry with value := child.value, dirty := true })
  else some us

variable {blank} {child : Entry V}

/-- **A merge keeps the promise** and what is read. -/
theorem Column.merge (promise : Column blank base (some child :: top :: lower)) :
    ∃ merged, merge blank child top = some merged ∧ Column blank base (merged :: lower) ∧
      Same blank (some child.value) (readThrough base (merged :: lower)) := by
  obtain ⟨clean, fresh, stale, below⟩ := promise
  unfold WriteBack.merge
  cases dirty : child.dirty with
  | false =>
      refine ⟨top, rfl, below, ?_⟩
      rw [← clean dirty]
  | true =>
      simp only [↓reduceIte]
      cases top with
      | none =>
          have isFresh : child.fresh = true := by
            cases flag : child.fresh with
            | true => rfl
            | false => exact absurd rfl (stale flag)
          have nothing := fresh isFresh
          simp only [isFresh, ↓reduceIte]
          split
          · rename_i gone
            exact ⟨none, rfl, below, Or.inl ⟨gone, nothing⟩⟩
          · refine ⟨_, rfl, ⟨?_, ?_, ?_, below⟩, Same.refl _⟩
            · intro flag
              cases flag
            · intro _
              exact nothing
            · intro flag
              cases flag
      | some entry =>
          obtain ⟨-, entryFresh, entryStale, deeper⟩ := below
          simp only
          split
          · rename_i gone
            rw [Bool.and_eq_true] at gone
            exact ⟨none, rfl, deeper, Or.inl ⟨gone.2, entryFresh gone.1⟩⟩
          · refine ⟨_, rfl, ⟨?_, entryFresh, entryStale, deeper⟩, Same.refl _⟩
            intro flag
            cases flag

/-- A merge takes its value from the entry above or leaves the one it finds. -/
theorem merge_value {entry : Entry V} (merged : merge blank child top = some (some entry)) :
    entry.value = child.value ∨ top = some entry := by
  unfold merge at merged
  split at merged
  · left
    split at merged
    · split at merged
      · cases merged
      · split at merged
        · cases merged
          rfl
        · cases merged
    · split at merged
      · cases merged
      · cases merged
        rfl
  · right
    exact Option.some.inj merged

end

/-! ## What a merge needs -/

section

variable {V : Type*} {blank : V → Bool} {base : Option V} {upper top : Option (Entry V)}
  {column lower : List (Option (Entry V))}

/-- An entry that is not fresh has an entry below it, whatever that holds. -/
def Rests (upper lower : Option (Entry V)) : Prop :=
  ∀ entry, upper = some entry → entry.fresh = false → lower ≠ none

/-- Every layer rests on the next. -/
def Anchored (column : List (Option (Entry V))) : Prop := column.IsChain Rests

theorem rests_none (lower : Option (Entry V)) : Rests none lower := by
  intro entry absent
  cases absent

/-- A read leaves every entry where it is. -/
theorem Rests.fetch (rests : ∀ next ∈ column.head?, Rests upper next) :
    ∀ next ∈ (fetch blank base column).head?, Rests upper next := by
  cases column with
  | nil => exact rests
  | cons first rest =>
      cases first with
      | some entry => exact rests
      | none =>
          rintro next - entry found stale
          exact absurd rfl (rests none rfl entry found stale)

theorem Anchored.fetch (anchored : Anchored column) : Anchored (fetch blank base column) := by
  induction column with
  | nil => exact anchored
  | cons first rest ih =>
      cases first with
      | some entry => exact anchored
      | none =>
          refine List.isChain_cons.mpr ⟨?_, ih (List.isChain_cons.mp anchored).2⟩
          intro next head
          cases below : readThrough base rest with
          | none => exact rests_none next
          | some value =>
              rintro - - - rfl
              exact head?_fetch below head

/-- A write is anchored, whatever the new value. -/
theorem Anchored.write {empty : V} (anchored : Anchored (top :: lower)) (value : V) :
    Anchored (closed blank (opened blank empty base top lower) value ::
      looked blank base top lower) := by
  obtain ⟨rests, below⟩ := List.isChain_cons.mp anchored
  cases top with
  | some entry =>
      refine List.isChain_cons.mpr ⟨?_, below⟩
      intro next head
      unfold closed
      split
      · exact rests_none next
      · intro written equal stale
        cases equal
        exact rests next head entry rfl stale
  | none =>
      refine List.isChain_cons.mpr ⟨?_, Anchored.fetch below⟩
      intro next head
      unfold closed
      split
      · exact rests_none next
      · intro written equal stale
        cases equal
        cases found : readThrough base lower with
        | none =>
            simp only [opened, found] at stale
            cases stale
        | some old =>
            rintro rfl
            exact head?_fetch found head

/-- **A merge into the layer below never loses track**, and the rest stays anchored. -/
theorem Anchored.merge {child : Entry V} (anchored : Anchored (some child :: top :: lower)) :
    ∃ merged, merge blank child top = some merged ∧ Anchored (merged :: lower) := by
  obtain ⟨rests, below⟩ := List.isChain_cons.mp anchored
  obtain ⟨deeper, rest⟩ := List.isChain_cons.mp below
  unfold WriteBack.merge
  split
  · cases top with
    | none =>
        have fresh : child.fresh = true := by
          by_contra stale
          exact rests none rfl child rfl (Bool.not_eq_true _ ▸ stale) rfl
        simp only [fresh, ↓reduceIte]
        split
        · exact ⟨none, rfl, below⟩
        · refine ⟨_, rfl, List.isChain_cons.mpr ⟨?_, rest⟩⟩
          rintro next - written equal stale
          cases equal
          cases stale
    | some us =>
        simp only
        split
        · refine ⟨none, rfl, List.isChain_cons.mpr ⟨?_, rest⟩⟩
          rintro next -
          exact rests_none next
        · refine ⟨_, rfl, List.isChain_cons.mpr ⟨?_, rest⟩⟩
          intro next head written equal stale
          cases equal
          exact deeper next head us rfl stale
  · exact ⟨top, rfl, below⟩

/-- A write that drops an entry needs nothing above to rest on it. -/
theorem Rests.write {empty : V} {value : V} (rests : Rests upper top)
    (spared : ∀ copy entry, upper = some copy → copy.fresh = false → top = some entry →
      entry.fresh = true → blank value = false) :
    Rests upper (closed blank (opened blank empty base top lower) value) := by
  intro copy found stale dropped
  obtain ⟨entry, under⟩ := Option.ne_none_iff_exists'.mp (rests copy found stale)
  rw [under, closed, opened] at dropped
  split at dropped
  · rename_i gone
    obtain ⟨fresh, isBlank⟩ := Bool.and_eq_true_iff.mp gone
    rw [spared copy entry found stale under fresh] at isBlank
    cases isBlank
  · cases dropped

end

/-! ## Loops over distinct keys -/

/-- A loop that handles each key once, by a step that touches only that key,
handles every key as if it were the only one. -/
theorem foldlM_lookup {M K V W : Type*} (lookup : M → K → W) (step : M → K × V → Option M)
    (write : V → W → Option W)
    (law : ∀ state key value result, write value (lookup state key) = some result →
      ∃ next, step state (key, value) = some next ∧ lookup next key = result ∧
        ∀ other, other ≠ key → lookup next other = lookup state other)
    {entries : List (K × V)} (distinct : (entries.map Prod.fst).Nodup) {state : M}
    (defined : ∀ entry ∈ entries, ∃ result, write entry.2 (lookup state entry.1) = some result) :
    ∃ final, entries.foldlM step state = some final ∧
      (∀ key, key ∉ entries.map Prod.fst → lookup final key = lookup state key) ∧
      ∀ entry ∈ entries, write entry.2 (lookup state entry.1) = some (lookup final entry.1) := by
  induction entries generalizing state with
  | nil => exact ⟨state, rfl, fun _ _ => rfl, fun _ member => (List.not_mem_nil member).elim⟩
  | cons head rest ih =>
      rw [List.map_cons, List.nodup_cons] at distinct
      rw [List.forall_mem_cons] at defined
      obtain ⟨⟨result, written⟩, others⟩ := defined
      obtain ⟨next, stepped, here, elsewhere⟩ := law state head.1 head.2 result written
      have apart : ∀ entry ∈ rest, entry.1 ≠ head.1 := by
        intro entry member same
        exact distinct.1 (same ▸ List.mem_map_of_mem member)
      have later : ∀ entry ∈ rest, ∃ result, write entry.2 (lookup next entry.1) = some result := by
        intro entry member
        rw [elsewhere entry.1 (apart entry member)]
        exact others entry member
      obtain ⟨final, folded, untouched, merged⟩ := ih distinct.2 later
      refine ⟨final, ?_, ?_, ?_⟩
      · rw [List.foldlM_cons]
        simp only [stepped]
        exact folded
      · intro key absent
        rw [List.map_cons, List.mem_cons, not_or] at absent
        rw [untouched key absent.2, elsewhere key absent.1]
      · intro entry member
        rcases List.mem_cons.mp member with rfl | member
        · rw [untouched entry.1 distinct.1, here]
          exact written
        · rw [← elsewhere entry.1 (apart entry member)]
          exact merged entry member

end GiantCore.Foundation.WriteBack
