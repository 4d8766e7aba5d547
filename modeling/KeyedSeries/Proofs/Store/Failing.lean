import KeyedSeries.Proofs.Store.Confined

/-!
# Writes that fail

To save a document may fail when its directories are made, when its hidden file is written,
and when this file is to take the place of the file. **None of these failures changes a file
that is not hidden** (`KeyedSeries.DirectoryStore.shown_of_save_error`): directories may be
new, and the hidden file may be left. Columns are written in turn up to the first failure, and
so **what columns leave that fail are the files of those before the one that failed**
(`KeyedSeries.DirectoryStore.shown_of_writeColumns_error`).
-/

namespace KeyedSeries.DirectoryStore

open Disk FilePath

variable {d d' d'' : Disk} {q : Place} {name : String} {failure : Failure}

/-- The files that are not hidden are the same ones, with the same content. -/
def SameShown (d d' : Disk) : Prop := ∀ r, IsShown r → d'.fileAt? r = d.fileAt? r

theorem SameShown.refl (d : Disk) : SameShown d d := fun _ _ => rfl

theorem SameShown.trans (h : SameShown d d') (h' : SameShown d' d'') : SameShown d d'' :=
  fun r hr => (h' r hr).trans (h r hr)

/-- New directories are no files. -/
theorem sameShown_of_grown {P : Place → Prop} (h : Grown P d d') : SameShown d d' := by
  intro r _
  rw [fileAt?, fileAt?]
  rcases h.entry r with hsame | ⟨-, hnone, hdir⟩
  · rw [hsame]
  · rw [hnone, hdir]

/-- A hidden file is not shown. -/
theorem sameShown_put_draft (q : Place) (name : String) (e : Entry) :
    SameShown d (d.put (q ++ [draftName name]) e) := by
  intro r hr
  have hne : r ≠ q ++ [draftName name] := by
    rintro rfl
    exact hr.ne_draft q name rfl
  rw [fileAt?, entry?_put (by simp), if_neg hne, fileAt?]

/-- **To save a document and fail** changes no file that is not hidden. -/
theorem shown_of_save_error (ht : d.IsPlainTree) (hq : ∀ n ∈ q ++ [name], isEntryName n = true)
    {doc : Document} (h : save d (ofPlace (q ++ [name])) doc = (.error failure, d')) :
    SameShown d d' := by
  have hsaves := saves_save ht hq doc
  rw [h] at hsaves
  cases hsaves with
  | unwritten hgrown => exact sameShown_of_grown hgrown
  | hidden hready => exact (sameShown_of_grown hready.grown).trans (sameShown_put_draft q name _)

/-- So it is when a series is written. -/
theorem shown_of_writeSeries_error (ht : d.IsPlainTree) (hq : IsFilePlace q)
    {records : List Record} {tags : Tags}
    (h : writeSeries d (ofPlace q) records tags = (.error failure, d')) : SameShown d d' := by
  obtain ⟨up, name, rfl⟩ := (List.eq_nil_or_concat' q).resolve_left hq.ne_nil
  rw [writeSeries] at h
  split at h
  · cases h
    exact .refl _
  · cases h
  · split at h
    · cases h
      exact .refl _
    · exact shown_of_save_error ht hq.isEntryName h

/-! ### Several series -/

/-- **Work on a list that fails** has done all that comes before the first failure. -/
theorem exists_of_forAll_error {α : Type} {f : Disk → α → Except Failure Unit × Disk} {l : List α}
    (h : forAll f d l = (.error failure, d')) :
    ∃ k a d₁, l[k]? = some a ∧ forAll f d (l.take k) = (.ok (), d₁) ∧
      f d₁ a = (.error failure, d') := by
  induction l generalizing d with
  | nil => cases h
  | cons a rest ih =>
    rw [forAll] at h
    rcases hfirst : f d a with ⟨failure' | _, d₁⟩
    · rw [hfirst] at h
      exact ⟨0, a, d, rfl, rfl, hfirst.trans h⟩
    · rw [hfirst] at h
      obtain ⟨k, b, d₂, hb, hbefore, hfails⟩ := ih h
      exact ⟨k + 1, b, d₂, hb, forAll_cons_eq_ok_iff.mpr ⟨d₁, hfirst, hbefore⟩, hfails⟩

section Columns

variable {place : SeriesInfo → Place} {columns : List (SeriesInfo × List (Key × Value))}

/-- **Columns that fail** leave the files that those before the one that failed have made. -/
theorem shown_of_writeColumns_error (ht : d.IsPlainTree)
    (hplaces : ∀ column ∈ columns, IsFilePlace (place column.1))
    (h : forAll (writeColumn place) d columns = (.error failure, d')) :
    ∃ k d₁, k < columns.length ∧ forAll (writeColumn place) d (columns.take k) = (.ok (), d₁) ∧
      SameShown d₁ d' := by
  obtain ⟨k, column, d₁, hcolumn, hbefore, hfails⟩ := exists_of_forAll_error h
  have hmem : ∀ other ∈ columns.take k, other ∈ columns := fun other => List.mem_of_mem_take
  obtain ⟨ht₁, -⟩ := others_of_writeColumns ht
    (fun other hother => hplaces other (hmem other hother)) hbefore
  exact ⟨k, d₁, (List.getElem?_eq_some_iff.mp hcolumn).1, hbefore,
    shown_of_writeSeries_error ht₁ (hplaces column (List.mem_of_getElem? hcolumn)) hfails⟩

end Columns

end KeyedSeries.DirectoryStore
