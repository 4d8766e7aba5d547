import KeyedSeries.Config.Roots
import KeyedSeries.Proofs.Disk.Walk

/-!
# What opening makes of the roots

Opening an engine adds directories to the tree and changes nothing else
(`KeyedSeries.Config.grown_resolve`). **The managed root of an engine that
may write is the path of a place**, and a directory is there
(`KeyedSeries.Config.managed_of_resolve`).
-/

namespace KeyedSeries.Config

open Disk FilePath

variable {config : Config} {d d' : Disk} {path : FilePath} {roots : Roots}

/-! ### The managed root -/

/-- A root that is declared is the one that was given, and it is not empty. -/
theorem declared_eq_ok {key : String} {dir? : Option FilePath} (h : declared key dir? = .ok path) :
    dir? = some path ∧ path.text ≠ "" := by
  unfold declared at h
  split at h
  · split at h
    · cases h
    · next hblank =>
      cases h
      refine ⟨rfl, ?_⟩
      rintro htext
      rw [htext] at hblank
      exact hblank (by decide)
  · cases h

/-- The managed root of an engine that may write is that of a declared directory which
was made. -/
theorem managedRoot_eq_ok (h : config.managedRoot d = (.ok path, d'))
    (hwritable : config.readOnly = false) :
    ∃ dir, declared dirKey config.dir = .ok dir ∧ d.makeDirs dir = (.ok (), d') ∧
      rootPath d' dir = .ok path := by
  rw [managedRoot] at h
  cases hdeclared : declared dirKey config.dir with
  | error failure =>
    rw [hdeclared] at h
    cases h
  | ok dir =>
    rw [hdeclared] at h
    cases hrefused : refuseFile d dirKey dir with
    | error failure =>
      simp only [bind, Except.bind, hrefused] at h
      cases h
    | ok _ =>
      simp only [bind, Except.bind, hrefused, pure, Except.pure, hwritable, Bool.false_eq_true,
        if_false] at h
      split at h
      · cases h
      · next d₁ hdirs =>
        obtain ⟨hpath, rfl⟩ := Prod.mk.inj h
        exact ⟨dir, rfl, hdirs, hpath⟩

/-- The path of a directory, once it is a root, is that of its place. -/
theorem rootPath_of_isDir {dir : FilePath} (ht : d.IsTree) (hdir : d.isDir dir = true)
    (h : rootPath d dir = .ok path) : ∃ root, path = ofPlace root ∧ d.entry? root = some .dir := by
  obtain ⟨root, hlocate⟩ := isDir_eq_true_iff.mp hdir
  rw [rootPath, exists?, canonical, hlocate] at h
  cases h
  exact ⟨root, rfl, entry?_of_locate ht hlocate⟩

theorem grown_managedRoot (ht : d.IsLinkedTree) (config : Config) :
    Grown (fun _ => True) d (config.managedRoot d).2 := by
  rw [managedRoot]
  split
  · exact .refl ht
  · next dir _ =>
    split
    · exact .refl ht
    · have hgrown := grown_makeDirs ht dir
      split
      · next hdirs => rwa [hdirs] at hgrown
      · next hdirs => rwa [hdirs] at hgrown

/-- The managed root of an engine that may write is the path of a directory. -/
theorem managedRoot_of_writable (ht : d.IsLinkedTree)
    (h : config.managedRoot d = (.ok path, d')) (hwritable : config.readOnly = false) :
    Grown (fun _ => True) d d' ∧ ∃ root, path = ofPlace root ∧ d'.entry? root = some .dir := by
  obtain ⟨dir, hdeclared, hdirs, hpath⟩ := managedRoot_eq_ok h hwritable
  have hgrown := grown_makeDirs ht dir
  rw [hdirs] at hgrown
  exact ⟨hgrown, rootPath_of_isDir hgrown.isLinkedTree.toIsTree
    (isDir_of_makeDirs ht (declared_eq_ok hdeclared).2 hdirs) hpath⟩

/-! ### Both roots -/

/-- **To open an engine** adds directories, whatever comes of it. -/
theorem grown_resolve (ht : d.IsLinkedTree) (config : Config) :
    Grown (fun _ => True) d (config.resolve d).2 := by
  have hmanaged := grown_managedRoot ht config
  rw [resolve]
  split
  · exact .refl ht
  · split
    · split
      · exact .refl ht
      · split
        · exact .refl ht
        · split
          · next hroot => rwa [hroot] at hmanaged
          · next hroot =>
            rw [hroot] at hmanaged
            split <;> exact hmanaged
    · split
      · next hroot => rwa [hroot] at hmanaged
      · next hroot => rwa [hroot] at hmanaged

/-- The roots of an engine that may write are the managed one and, if there is a history, a
history root that is written differently. -/
theorem resolve_eq_ok (h : config.resolve d = (.ok roots, d'))
    (hwritable : config.readOnly = false) :
    ∃ managed, config.managedRoot d = (.ok managed, d') ∧ roots.managed = some managed ∧
      (config.hasHistory = true → ∃ history, config.historyRoot d = .ok history ∧
        roots.history = some history ∧ managed.components ≠ history.components) := by
  rw [resolve] at h
  split at h
  · cases h
  · split at h
    · split at h
      · cases h
      · next history hhistory =>
        split at h
        · next hreadOnly =>
          rw [hwritable] at hreadOnly
          cases hreadOnly
        · split at h
          · cases h
          · next managed d₁ hroot =>
            split at h
            · cases h
            · next hne =>
              cases h
              exact ⟨managed, hroot, rfl, fun _ => ⟨history, hhistory, rfl, hne⟩⟩
    · next hnone =>
      split at h
      · cases h
      · next managed d₁ hroot =>
        cases h
        exact ⟨managed, hroot, rfl, fun hsome => absurd hsome hnone⟩

/-- **The managed root** of an engine that may write is the path of a place where a
directory is. -/
theorem managed_of_resolve (ht : d.IsLinkedTree) (h : config.resolve d = (.ok roots, d'))
    (hwritable : config.readOnly = false) :
    ∃ root, roots.managed = some (ofPlace root) ∧ d'.entry? root = some .dir := by
  obtain ⟨managed, hroot, hmanaged, -⟩ := resolve_eq_ok h hwritable
  obtain ⟨-, root, rfl, hdir⟩ := managedRoot_of_writable ht hroot hwritable
  exact ⟨root, hmanaged, hdir⟩

end KeyedSeries.Config
