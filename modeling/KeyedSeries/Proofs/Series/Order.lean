import KeyedSeries.Proofs.Catalog
import KeyedSeries.Proofs.FilePath

/-!
# The order of paths

Names that lead to a file are compared one after the other, and paths letter by letter. The two
orders differ where a letter comes before the separator: `a` comes before `a-b`, but `a.c` comes
behind `a-b`. **If every letter of the names comes behind the separator, the path that names make
keeps their order** (`KeyedSeries.Catalog.pathOf_le`).
-/

namespace KeyedSeries

/-! ### Texts and what comes behind them -/

/-- A text that comes before another one does so with a separator and anything behind it, if the
separator comes before every letter of the other text. -/
theorem append_lt_append {separator : Char} {a b : List Char} (h : a < b)
    (hb : ∀ c ∈ b, separator < c) {rest : List Char}
    (hrest : rest = [] ∨ rest.head? = some separator) (rest' : List Char) :
    a ++ rest < b ++ rest' := by
  induction a generalizing b with
  | nil =>
    cases b with
    | nil => exact absurd h (List.not_lt_nil _)
    | cons c b =>
      rcases hrest with rfl | hrest
      · exact List.nil_lt_cons _ _
      · obtain ⟨rest, rfl⟩ := List.head?_eq_some_iff.mp hrest
        exact List.cons_lt_cons_iff.mpr (.inl (hb c List.mem_cons_self))
  | cons c a ih =>
    cases b with
    | nil => exact absurd h (List.not_lt_nil _)
    | cons c' b =>
      rw [List.cons_append, List.cons_append, List.cons_lt_cons_iff]
      rcases List.cons_lt_cons_iff.mp h with hc | ⟨hc, hab⟩
      · exact .inl hc
      · exact .inr ⟨hc, ih hab fun d hd => hb d (List.mem_cons_of_mem _ hd)⟩

/-- Behind a first piece there is nothing, or the separator. -/
theorem exists_joined_cons (separator : Char) (p : List Char) (ps : List (List Char)) :
    ∃ rest, joined separator (p :: ps) = p ++ rest ∧
      (rest = [] ∨ rest.head? = some separator) := by
  cases ps with
  | nil => exact ⟨[], by rw [joined, List.append_nil], .inl rfl⟩
  | cons q ps => exact ⟨_, joined_cons p (by simp), .inr rfl⟩

/-- **What is joined keeps the order of the pieces**, if the separator comes before every letter of
the later ones. -/
theorem not_joined_lt_joined {separator : Char} {a b : List String}
    (hb : ∀ n ∈ b, ∀ c ∈ n.toList, separator < c) (h : (compare a b).isLE = true) :
    ¬joined separator (b.map String.toList) < joined separator (a.map String.toList) := by
  induction a generalizing b with
  | nil => exact List.not_lt_nil _
  | cons n a ih =>
    cases b with
    | nil => cases h
    | cons m b =>
      obtain ⟨hm, hrest⟩ := List.forall_mem_cons.mp hb
      have hcons : compare (n :: a) (m :: b) = (compare n m).then (compare a b) :=
        List.compareLex_cons_cons
      rw [hcons] at h
      cases hnm : compare n m with
      | lt =>
        obtain ⟨rest, hleft, hstart⟩ :=
          exists_joined_cons separator n.toList (a.map String.toList)
        obtain ⟨rest', hright, -⟩ := exists_joined_cons separator m.toList (b.map String.toList)
        rw [List.map_cons, List.map_cons, hleft, hright]
        have hlt : n.toList < m.toList := String.lt_iff.mp (compareOfLessAndEq_eq_lt.mp hnm)
        exact List.le_of_lt (append_lt_append hlt hm hstart rest')
      | eq =>
        obtain rfl : n = m := Std.LawfulEqCmp.eq_of_compare hnm
        rw [hnm] at h
        cases a with
        | nil =>
          obtain ⟨rest', hright, -⟩ :=
            exists_joined_cons separator n.toList (b.map String.toList)
          rw [List.map_cons, List.map_cons, hright]
          exact (List.prefix_append _ _).le
        | cons n' a =>
          cases b with
          | nil => cases h
          | cons m' b =>
            have hsame : ∀ (q : String) (c : List String),
                joined separator ((n :: q :: c).map String.toList) =
                  n.toList ++ separator :: joined separator ((q :: c).map String.toList) :=
              fun q c => joined_cons _ (by simp)
            rw [hsame, hsame]
            exact List.append_left_le (List.cons_le_cons_iff.mpr
              (.inr ⟨rfl, List.not_lt.mp (ih hrest h)⟩))
      | gt =>
        rw [hnm] at h
        cases h

/-- **Paths go by the order of their names**, if every letter of the later one's names comes behind
the separator. -/
theorem Catalog.pathOf_le {a b : List String}
    (hb : ∀ n ∈ b, ∀ c ∈ n.toList, Location.separator < c) (h : (compare a b).isLE = true) :
    pathOf a ≤ pathOf b := by
  rw [← String.not_lt, String.lt_iff, pathOf, pathOf, toList_intercalate_singleton,
    toList_intercalate_singleton]
  exact not_joined_lt_joined hb h

end KeyedSeries
