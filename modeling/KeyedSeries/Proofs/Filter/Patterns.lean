import KeyedSeries.Proofs.Filter.Conjuncts

/-!
# Preparing a filter changes nothing

The table of a prepared filter holds the patterns that stand in the filter itself, each of them
once and as what it is prepared to (`KeyedSeries.Filter.patterns_prepare`). A pattern that is looked
up there is therefore read as it would be anyway, wherever it comes from: a row may supply the text
of a pattern that the filter holds as well. **A prepared filter accepts the rows that the filter
accepts, one after the other, and these are the rows of which the filter holds**
(`KeyedSeries.Filter.prepare_exact`).

What a filter says about a row is said once more without any evaluation
(`KeyedSeries.Filter.Holds`): a pattern is then a regular expression or it is none, and there is
nothing that could have been prepared before.
-/

namespace KeyedSeries.Filter

/-! ### The patterns of a filter -/

/-- The filter compares some value with the pattern, at any depth. -/
inductive HasPattern (pattern : String) : Filter → Prop
  /-- It is the comparison itself; only a text is a pattern. -/
  | held {path : String} {v : Value} (h : v.text? = some pattern) :
    HasPattern pattern (cell path .like v)
  /-- An operand of a conjunction does. -/
  | and {fs : List Filter} {f : Filter} (hf : f ∈ fs) (h : HasPattern pattern f) :
    HasPattern pattern (and fs)
  /-- An operand of a disjunction does. -/
  | or {fs : List Filter} {f : Filter} (hf : f ∈ fs) (h : HasPattern pattern f) :
    HasPattern pattern (or fs)
  /-- What is negated does. -/
  | not {f : Filter} (h : HasPattern pattern f) : HasPattern pattern (not f)

section Library

variable [PatternLibrary]

/-- The second table is the first one and, of the patterns with `P`, all those that it lacks, as
what they are prepared to. -/
def Adds (P : String → Prop) (table table' : PatternTable) : Prop :=
  ∀ pattern r, table'.get? pattern = some r ↔
    table.get? pattern = some r ∨
      table.get? pattern = none ∧ P pattern ∧ r = wholeText? pattern

namespace Adds

variable {P Q : String → Prop} {table table' table'' : PatternTable}

theorem congr (h : Adds P table table') (hP : ∀ pattern, Q pattern ↔ P pattern) :
    Adds Q table table' := fun pattern r => by
  rw [hP pattern]
  exact h pattern r

/-- Nothing is added where there is no pattern. -/
theorem none_of (h : ∀ pattern, ¬ P pattern) : Adds P table table := fun pattern r => by
  simp [h pattern]

theorem eq_none_iff (h : Adds P table table') (pattern : String) :
    table'.get? pattern = none ↔ table.get? pattern = none ∧ ¬ P pattern := by
  simp only [Option.eq_none_iff_forall_ne_some, ne_eq, h pattern]
  constructor
  · intro hnone
    have hbefore : ∀ r, ¬ table.get? pattern = some r := fun r hr => hnone r (.inl hr)
    exact ⟨hbefore, fun hp => hnone _ (.inr ⟨hbefore, hp, rfl⟩)⟩
  · rintro ⟨hbefore, hp⟩ r (hr | ⟨-, hr, -⟩)
    · exact hbefore r hr
    · exact hp hr

/-- Patterns can be added in two steps; the second one leaves alone what the first one added. -/
theorem trans (h : Adds P table table') (h' : Adds Q table' table'') :
    Adds (fun pattern => P pattern ∨ Q pattern) table table'' := by
  intro pattern r
  rw [h' pattern r, h pattern r, h.eq_none_iff pattern]
  by_cases hp : P pattern <;> simp [hp]

/-- A single pattern is added if it is not there yet. -/
theorem single (table : PatternTable) (pattern : String) :
    Adds (· = pattern) table
      (if table.contains pattern then table else table.insert pattern (wholeText? pattern)) := by
  intro other r
  split
  · next hmem =>
    have hsome : (table.get? pattern).isSome = true := hmem
    constructor
    · exact .inl
    · rintro (h | ⟨hnone, rfl, -⟩)
      · exact h
      · rw [hnone] at hsome
        cases hsome
  · next hmem =>
    have hnone : table.get? pattern = none := by
      simpa [OrderedMap.contains] using hmem
    rw [OrderedMap.get?_insert]
    split
    · next heq =>
      subst heq
      simp [hnone, eq_comm]
    · next hne => simp [hne]

end Adds

/-- **A filter adds the patterns that it holds.** -/
theorem adds_addPatterns (f : Filter) (table : PatternTable) :
    Adds (HasPattern · f) table (f.addPatterns table) := by
  have hlist : ∀ {fs : List Filter},
      (∀ f ∈ fs, ∀ table, Adds (HasPattern · f) table (f.addPatterns table)) →
        ∀ table, Adds (fun pattern => ∃ f ∈ fs, HasPattern pattern f) table
          (addAllPatterns table fs) := by
    intro fs
    induction fs with
    | nil => exact fun _ table => .none_of (by simp)
    | cons f rest ih =>
      intro hfs table
      obtain ⟨hf, hrest⟩ := List.forall_mem_cons.mp hfs
      exact ((hf table).trans (ih hrest (f.addPatterns table))).congr (by simp)
  induction f using inductionBelow generalizing table with
  | cell path c v =>
    have hlike {pattern : String} : HasPattern pattern (.cell path c v) ↔
        c = .like ∧ v.text? = some pattern :=
      ⟨fun | .held h => ⟨rfl, h⟩, fun ⟨hc, h⟩ => hc ▸ .held h⟩
    cases c with
    | like =>
      rw [addPatterns]
      split
      · next pattern hpattern =>
        exact (Adds.single table pattern).congr
          (by simp [hlike, hpattern, eq_comm])
      · next hpattern => exact .none_of (by simp [hlike, hpattern])
    | _ => exact .none_of (by simp [hlike])
  | and fs ih =>
    refine (hlist ih table).congr fun pattern => ?_
    exact ⟨fun | .and hf h => ⟨_, hf, h⟩, fun ⟨_, hf, h⟩ => .and hf h⟩
  | or fs ih =>
    refine (hlist ih table).congr fun pattern => ?_
    exact ⟨fun | .or hf h => ⟨_, hf, h⟩, fun ⟨_, hf, h⟩ => .or hf h⟩
  | not f ih =>
    refine (ih table).congr fun pattern => ?_
    exact ⟨fun | .not h => h, .not⟩
  | key c k | cells left c right | const b => exact .none_of fun _ h => nomatch h

/-- **The table of a prepared filter** holds the patterns of the filter and nothing else, each of
them as what it is prepared to. -/
theorem patterns_prepare (f : Filter) (pattern : String) (r : Option Regex) :
    f.prepare.patterns.get? pattern = some r ↔
      HasPattern pattern f ∧ r = wholeText? pattern := by
  rw [prepare, adds_addPatterns f .empty pattern r, OrderedMap.get?_empty]
  simp

/-! ### Evaluation -/

/-- A pattern is the same regular expression whether it stands in the table or not. -/
theorem regex_prepare (f : Filter) : f.prepare.regex = wholeText? := by
  funext pattern
  rw [PreparedFilter.regex]
  split
  · next r hr => exact ((patterns_prepare f pattern r).mp hr).2
  · rfl

/-- A prepared filter accepts what the filter accepts. -/
theorem accepts_prepare (f : Filter) (row : FilterRow) :
    f.prepare.accepts row = f.accepts row := by
  rw [PreparedFilter.accepts, regex_prepare]
  rfl

/-- The first value compares with the second one as asked; with a pattern only if it is a regular
expression that matches. -/
def Compares (actual : Value) (c : Comparison) (expected : Value) : Prop :=
  match c with
  | .like => ∃ text pattern r, actual.text? = some text ∧ expected.text? = some pattern ∧
      wholeText? pattern = some r ∧ r.isMatch text = true
  | c => ∃ o, actual.compare? expected = some o ∧ c.holds o = true

mutual

/-- What the filter says about the row. -/
def Holds (row : FilterRow) : Filter → Prop
  | key c k => c.holds (compare row.key k) = true
  | cell path c v => ∃ actual, row.value path = some actual ∧ Compares actual c v
  | cells left c right =>
    ∃ l r, row.value left = some l ∧ row.value right = some r ∧ Compares l c r
  | const b => b = true
  | and filters => AllHold row filters
  | or filters => SomeHolds row filters
  | not f => ¬ f.Holds row

/-- What all filters of a list say. -/
def AllHold (row : FilterRow) : List Filter → Prop
  | [] => True
  | f :: rest => f.Holds row ∧ AllHold row rest

/-- What some filter of a list says. -/
def SomeHolds (row : FilterRow) : List Filter → Prop
  | [] => False
  | f :: rest => f.Holds row ∨ SomeHolds row rest

end

theorem allHold_iff {row : FilterRow} {fs : List Filter} :
    AllHold row fs ↔ ∀ f ∈ fs, f.Holds row := by
  induction fs with
  | nil => simp [AllHold]
  | cons f rest ih => simp [AllHold, ih]

theorem someHolds_iff {row : FilterRow} {fs : List Filter} :
    SomeHolds row fs ↔ ∃ f ∈ fs, f.Holds row := by
  induction fs with
  | nil => simp [SomeHolds]
  | cons f rest ih => simp [SomeHolds, ih]

theorem compareWith_wholeText?_iff {actual expected : Value} {c : Comparison} :
    compareWith wholeText? actual c expected = true ↔ Compares actual c expected := by
  cases c with
  | like =>
    cases ha : actual.text? with
    | none => simp [compareWith, Compares, ha]
    | some text =>
      cases he : expected.text? with
      | none => simp [compareWith, Compares, ha, he]
      | some pattern =>
        cases hr : wholeText? pattern <;> simp [compareWith, Compares, ha, he, hr, matchesText]
  | _ => cases ho : actual.compare? expected <;> simp [compareWith, Compares, ho]

/-- Evaluation decides what the filter says. -/
theorem accepts_iff_holds (f : Filter) (row : FilterRow) :
    f.accepts row = true ↔ f.Holds row := by
  induction f using inductionBelow with
  | key c k => simp [Holds]
  | cell path c v =>
    rw [accepts, acceptsWith, Holds]
    cases row.value path <;> simp [compareWith_wholeText?_iff]
  | cells left c right =>
    rw [accepts, acceptsWith, Holds]
    cases row.value left <;> cases row.value right <;> simp [compareWith_wholeText?_iff]
  | const b => simp [Holds]
  | and fs ih =>
    rw [accepts_and, List.all_eq_true, Holds, allHold_iff]
    exact forall₂_congr ih
  | or fs ih =>
    rw [accepts_or, List.any_eq_true, Holds, someHolds_iff]
    exact exists_congr fun f => and_congr_right fun hf => ih f hf
  | not f ih => simp [Holds, ← ih]

/-- **Preparing changes nothing.** The table of a prepared filter holds the patterns of the filter,
each as what it is prepared to; on any rows one after the other the prepared filter gives the
answers of plain evaluation, and it accepts a row just if the filter holds of it. -/
theorem prepare_exact (f : Filter) :
    (∀ pattern r, f.prepare.patterns.get? pattern = some r ↔
        HasPattern pattern f ∧ r = wholeText? pattern) ∧
      (∀ rows : List FilterRow, rows.map f.prepare.accepts = rows.map f.accepts) ∧
      ∀ row, f.prepare.accepts row = true ↔ f.Holds row := by
  refine ⟨patterns_prepare f, fun rows => ?_, fun row => ?_⟩
  · exact List.map_congr_left fun row _ => accepts_prepare f row
  · rw [accepts_prepare, accepts_iff_holds]

end Library

/-- The filter holds a pattern that the row supplies as well, and one that cannot be read. -/
example :
    let f := or [cell "text" .like (.ofText "("), cells "text" .like "pattern",
      not (cell "text" .like (.ofText "a|b"))]
    (f.prepare.patterns.keys = ["(", "a|b"]) ∧
      f.prepare.accepts ⟨1, fun path => some (.ofText (if path = "pattern" then "a|b" else "b"))⟩ =
        true := by
  decide +kernel

end KeyedSeries.Filter
