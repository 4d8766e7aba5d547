import KeyedSeries.Proofs.Engine.Keeps

/-!
# Work and its parts

Whatever an engine does is put together in a few ways: one part after the other, a call of
the store, work under a guard. **A property that goes from the parts to the whole in each of
these ways** (`KeyedSeries.Engine.PassesOn`) **is one of every operation** but closing.
-/

namespace KeyedSeries.Engine

variable {σ : Type}

/-- A property that work has if its parts have it, and that the smallest parts have. -/
structure PassesOn (P : {α : Type} → Work σ α → Prop) : Prop where
  /-- A result has it. -/
  pure : ∀ {α : Type} (a : α), P (Pure.pure a : Work σ α)
  /-- A part and whatever comes behind it have it together. -/
  bind : ∀ {α β : Type} {x : Work σ α} {f : α → Work σ β}, P x → (∀ a, P (f a)) → P (x >>= f)
  /-- A result that is known already has it, a failure included. -/
  known : ∀ {α : Type} (x : Except Failure α), P (known (σ := σ) x)
  /-- The question whether the engine is open has it. -/
  requireOpen : P (requireOpen (σ := σ))
  /-- A call of the store has it. -/
  callFor : ∀ {α : Type} (task : Task) (action : Action σ α), P (callFor task action)
  /-- Work under a guard has it. -/
  guarded : ∀ {α : Type} (g : Guard) {work : Work σ α}, P work → P (guarded g work)

namespace PassesOn

variable {P : {α : Type} → Work σ α → Prop} (h : PassesOn P) (e : Engine σ)

include h

theorem throw {α : Type} (failure : Failure) : P (MonadExcept.throw failure : Work σ α) :=
  h.known (.error failure)

theorem targetsOf (task : Task) (base : FilePath) (listing : Option (List FilePath))
    (paths : List String) : P (e.targetsOf task base listing paths) := by
  induction paths generalizing listing with
  | nil => exact h.pure _
  | cons path rest ih =>
    rw [Engine.targetsOf]
    split
    · split
      · exact h.bind (h.pure _) fun _ => h.bind (ih _) fun _ => h.pure _
      · exact h.bind (h.callFor _ _) fun _ => h.bind (ih _) fun _ => h.pure _
    · exact h.bind (h.known _) fun _ => h.bind (ih _) fun _ => h.pure _

theorem resolve (task : Task) (base : FilePath) (paths : List String) :
    P (e.resolve task base paths) := h.bind (h.targetsOf e _ _ _ _) fun _ => h.pure _

theorem readAll (filter : Option TagFilter) (ranges : List KeyRange) (isHistory : Bool)
    (targets : List Target) : P (e.readAll filter ranges isHistory targets) := by
  induction targets with
  | nil => exact h.pure _
  | cons t rest ih =>
    rw [Engine.readAll]
    exact h.bind (h.callFor _ _) fun _ => h.bind ih fun _ => h.pure _

theorem project (paths : List String) (tags : Option TagFilter) (filter : Option Filter)
    (unit : String) (isHistory : Bool) : P (e.project paths tags filter unit isHistory) := by
  have hhistory : P (e.projectHistory paths tags filter) := by
    rw [projectHistory]
    refine iteInduction (fun _ => h.pure _) fun _ => ?_
    split
    · dsimp only
      refine iteInduction (fun _ => h.pure _) fun _ => h.bind (h.resolve e _ _ _) fun _ => ?_
      exact h.bind (h.readAll e _ _ _ _) fun _ => h.pure _
    · exact h.throw _
  rw [Engine.project]
  refine h.bind h.requireOpen fun _ => iteInduction (fun _ => hhistory) fun _ => ?_
  refine iteInduction (fun _ => h.pure _) fun _ => ?_
  refine h.bind (h.known _) fun _ => h.bind (h.known _) fun _ => ?_
  refine h.bind (h.guarded _ (h.resolve e _ _ _)) fun _ => ?_
  exact h.bind (h.guarded _ (h.readAll e _ _ _ _)) fun _ => h.pure _

theorem describeAll (base : FilePath) (files : List FilePath) : P (e.describeAll base files) := by
  induction files with
  | nil => exact h.pure _
  | cons file rest ih =>
    rw [Engine.describeAll]
    split
    · exact ih
    · refine h.bind (h.callFor _ _) fun _ => ?_
      split
      · exact h.bind ih fun _ => h.pure _
      · exact h.throw _

theorem schema (unit : String) : P (e.schema unit) := by
  have hhistory : ∀ managed, P (e.withHistory managed) := by
    intro managed
    rw [withHistory]
    split
    · exact h.pure _
    · exact h.bind (h.callFor _ _) fun _ => h.pure _
  rw [schema_eq]
  refine h.bind h.requireOpen fun _ => ?_
  split
  · exact hhistory []
  · refine h.bind (h.known _) fun _ => h.bind (h.guarded _ ?_) hhistory
    exact h.bind (h.callFor _ _) fun files => h.describeAll e _ files

theorem bounds (start : Option String) : P (e.bounds start) := by
  rw [Engine.bounds]
  refine h.bind h.requireOpen fun _ => ?_
  split
  · exact h.pure _
  · split
    · exact h.bind (h.callFor _ _) fun _ => h.pure _
    · exact h.throw _

theorem insert (view : DataView) (unit : String) : P (e.insert view unit) := by
  rw [Engine.insert]
  refine h.bind h.requireOpen fun _ => h.bind (h.known _) fun _ => h.bind (h.known _) fun _ => ?_
  exact h.guarded _ (h.callFor _ _)

theorem delete (paths : List String) (ranges : List KeyRange) (tags : Option TagFilter)
    (unit : String) : P (e.delete paths ranges tags unit) := by
  rw [Engine.delete]
  refine h.bind h.requireOpen fun _ => h.bind (h.known _) fun _ => h.bind (h.known _) fun _ => ?_
  refine iteInduction (fun _ => h.guarded _ (h.callFor _ _)) fun _ => ?_
  exact h.bind (h.guarded _ (h.resolve e _ _ _)) fun _ => h.guarded _ (h.callFor _ _)

end PassesOn

end KeyedSeries.Engine
