import Mathlib.Order.WellFounded
import KeyedSeries.Proofs.Optimize.NormalForm
import KeyedSeries.Proofs.Optimize.Settled

/-!
# Which optimizations end

The number of passes is limited, and nothing else is. A pass goes on in the inputs of
what a rule has put in the place of a tree, and **it ends just if there is no endless way
down** (`KeyedSeries.Optimize.ends_iff`), each step of which goes from a tree to an input
of what has taken its place (`KeyedSeries.Optimize.Enters`). An optimization ends just if
this is so for all passes that the limit leaves it to make, and then it ends in one of
three ways (`KeyedSeries.Optimize.Concludes`), after no more passes than allowed and with
no more applications in a pass than the pass leaves nodes
(`KeyedSeries.Optimize.ends_of_run`). Rules that never make a tree higher have no endless
ways, the default ones among them (`KeyedSeries.Optimize.exists_optimize_default`).

Other rules have. A rule that puts a selection above every source applies to the source
again, one step further down, and so the first pass never comes to an end
(`KeyedSeries.Optimize.endless_aboveSource`).
-/

namespace KeyedSeries.Optimize

open PlanNode

variable {config : Config} {rules : RuleSet}

/-! ### Results -/

section Results

variable {f g : PlanNode → Progress → Option (Except RuleError (PlanNode × Progress))}

/-- The trees of a list have a result if the first one has, and, unless it has failed, the
others after it. -/
theorem exists_eachInput_cons_iff {n : PlanNode} {rest : List PlanNode} {p : Progress} :
    (∃ result, eachInput f (n :: rest) p = some result) ↔
      ∃ outcome, f n p = some outcome ∧ ∀ n' p', outcome = .ok (n', p') →
        ∃ result, eachInput f rest p' = some result := by
  rw [eachInput]
  cases hn : f n p with
  | none => simp
  | some outcome =>
    cases outcome with
    | error e => simp
    | ok outcome =>
      obtain ⟨n', p'⟩ := outcome
      cases hrest : eachInput f rest p' with
      | none => simp [hrest]
      | some result => cases result <;> simp [hrest]

/-- A pass has a result if, unless the application at the root has failed, the inputs of
what stands there then have one. -/
theorem exists_pass_succ_iff {depth : Nat} {n : PlanNode} {p : Progress} :
    (∃ outcome, pass config rules (depth + 1) n p = some outcome) ↔
      ∀ r p', applyFirst config rules n p = .ok (r, p') →
        ∃ result, eachInput (pass config rules depth) r.inputs p' = some result := by
  rw [pass]
  cases hfirst : applyFirst config rules n p with
  | error e => simp
  | ok first =>
    obtain ⟨r, p'⟩ := first
    cases hinputs : eachInput (pass config rules depth) r.inputs p' with
    | none => simp [hinputs]
    | some result => cases result <;> simp [hinputs]

/-- Passes that are left to make have a result if the next one has, and, if it has applied
something, those after it. -/
theorem exists_passes_succ_iff {depth left made : Nat} {root : PlanNode} {p : Progress} :
    (∃ result, passes config rules depth (left + 1) made root p = some result) ↔
      ∃ outcome, pass config rules depth root p = some outcome ∧
        ∀ root' p', outcome = .ok (root', p') →
          p'.applications.length ≠ p.applications.length →
            ∃ result, passes config rules depth left (made + 1) root' p' = some result := by
  rw [passes]
  cases hpass : pass config rules depth root p with
  | none => simp
  | some outcome =>
    cases outcome with
    | error e => simp
    | ok outcome =>
      obtain ⟨root', p'⟩ := outcome
      by_cases hsilent : p'.applications.length = p.applications.length <;> simp [hsilent]

/-- Where the trees of a list have a result by way of `f`, they have it by way of whatever
agrees with `f`. -/
theorem eachInput_mono (hfg : ∀ n p result, f n p = some result → g n p = some result)
    {l : List PlanNode} {p : Progress} {result : Except RuleError (List PlanNode × Progress)}
    (h : eachInput f l p = some result) : eachInput g l p = some result := by
  induction l generalizing p result with
  | nil => exact h
  | cons n rest ih =>
    rw [eachInput] at h ⊢
    cases hn : f n p with
    | none => simp [hn] at h
    | some first =>
      rw [hfg _ _ _ hn]
      rw [hn] at h
      cases first with
      | error e => exact h
      | ok first =>
        obtain ⟨n', p'⟩ := first
        dsimp only at h ⊢
        cases hrest : eachInput f rest p' with
        | none => simp [hrest] at h
        | some others =>
          rw [ih hrest]
          rw [hrest] at h
          exact h

/-- **More depth does not change a result.** -/
theorem pass_mono {depth depth' : Nat} (hle : depth ≤ depth') {n : PlanNode} {p : Progress}
    {result : Except RuleError (PlanNode × Progress)}
    (h : pass config rules depth n p = some result) :
    pass config rules depth' n p = some result := by
  induction depth generalizing depth' n p result with
  | zero => cases h
  | succ depth ih =>
    obtain ⟨depth', rfl⟩ := Nat.exists_eq_add_of_le' (Nat.le_of_add_left_le hle)
    rw [pass] at h ⊢
    cases hfirst : applyFirst config rules n p with
    | error e => simpa [hfirst] using h
    | ok first =>
      obtain ⟨r, p'⟩ := first
      rw [hfirst] at h
      dsimp only at h ⊢
      cases hinputs : eachInput (pass config rules depth) r.inputs p' with
      | none => simp [hinputs] at h
      | some others =>
        rw [eachInput_mono (fun _ _ _ => ih (Nat.le_of_add_le_add_right hle)) hinputs]
        rw [hinputs] at h
        exact h

theorem passes_mono {depth depth' : Nat} (hle : depth ≤ depth') {left made : Nat}
    {root : PlanNode} {p : Progress} {result : Except RuleError Optimized}
    (h : passes config rules depth left made root p = some result) :
    passes config rules depth' left made root p = some result := by
  induction left generalizing made root p with
  | zero => exact h
  | succ left ih =>
    rw [passes] at h ⊢
    cases hpass : pass config rules depth root p with
    | none => simp [hpass] at h
    | some outcome =>
      rw [pass_mono hle hpass]
      rw [hpass] at h
      cases outcome with
      | error e => exact h
      | ok outcome =>
        obtain ⟨root', p'⟩ := outcome
        dsimp only at h ⊢
        split at h
        · next heq => rw [if_pos heq, h]
        · next hne => rw [if_neg hne, ih h]

end Results

/-! ### Ways down -/

/-- **Where a pass goes on.** At a tree it applies a rule, or none; then it goes through
the inputs of what stands there, and enters the next of them with what it has kept track of
up to there. -/
inductive Enters (config : Config) (rules : RuleSet) :
    PlanNode × Progress → PlanNode × Progress → Prop
  /-- The inputs before this one were gone through. -/
  | input {n r m : PlanNode} {p p' q : Progress} {before after out : List PlanNode} {depth : Nat} :
    applyFirst config rules n p = .ok (r, p') → r.inputs = before ++ m :: after →
      eachInput (pass config rules depth) before p' = some (.ok (out, q)) →
        Enters config rules (m, q) (n, p)

/-- A pass over the tree comes to an end, if it may go deep enough. -/
def Ends (config : Config) (rules : RuleSet) (n : PlanNode) (p : Progress) : Prop :=
  ∃ depth result, pass config rules depth n p = some result

/-- A pass that starts at the tree could go down forever. -/
def IsEndless (config : Config) (rules : RuleSet) (n : PlanNode) (p : Progress) : Prop :=
  ∃ way : Nat → PlanNode × Progress, way 0 = (n, p) ∧
    ∀ i, Enters config rules (way (i + 1)) (way i)

/-- If the pass over a list of trees ends, so does the one over a tree behind others. -/
theorem pass_of_eachInput {depth depth' : Nat} {m : PlanNode} {before after out : List PlanNode}
    {p q : Progress}
    (h : ∃ result, eachInput (pass config rules depth) (before ++ m :: after) p = some result)
    (hbefore : eachInput (pass config rules depth') before p = some (.ok (out, q))) :
    ∃ outcome, pass config rules depth m q = some outcome := by
  induction before generalizing p out with
  | nil =>
    cases hbefore
    obtain ⟨outcome, hm, -⟩ := exists_eachInput_cons_iff.mp h
    exact ⟨outcome, hm⟩
  | cons n before ih =>
    obtain ⟨n', p', out', hn, hbefore, -⟩ := eachInput_cons_eq_ok_iff.mp hbefore
    obtain ⟨outcome, hn', hrest⟩ := exists_eachInput_cons_iff.mp h
    -- The result is the same at both depths.
    have hmax := pass_mono (le_max_left depth depth') hn'
    rw [pass_mono (le_max_right depth depth') hn] at hmax
    exact ih (hrest n' p' (Option.some.inj hmax).symm) hbefore

/-- The pass over a list of trees ends if the pass over every tree that is entered does. -/
theorem exists_eachInput {l : List PlanNode} {p : Progress}
    (h : ∀ before m after out q depth, l = before ++ m :: after →
      eachInput (pass config rules depth) before p = some (.ok (out, q)) →
        Ends config rules m q) :
    ∃ depth result, eachInput (pass config rules depth) l p = some result := by
  induction l generalizing p with
  | nil => exact ⟨0, _, rfl⟩
  | cons n rest ih =>
    obtain ⟨depth, outcome, hn⟩ := h [] n rest [] p 0 rfl rfl
    cases outcome with
    | error e => exact ⟨depth, exists_eachInput_cons_iff.mpr ⟨_, hn, nofun⟩⟩
    | ok outcome =>
      obtain ⟨n', p'⟩ := outcome
      obtain ⟨depth', result, hrest⟩ := @ih p' fun before m after out q depth' hl hbefore => by
        refine h (n :: before) m after (n' :: out) q (max depth depth') (by rw [hl]; rfl) ?_
        exact eachInput_cons_eq_ok_iff.mpr ⟨n', p', out, pass_mono (le_max_left _ _) hn,
          eachInput_mono (fun _ _ _ => pass_mono (le_max_right _ _)) hbefore, rfl⟩
      refine ⟨max depth depth', exists_eachInput_cons_iff.mpr
        ⟨_, pass_mono (le_max_left _ _) hn, ?_⟩⟩
      rintro _ _ ⟨⟩
      exact ⟨result, eachInput_mono (fun _ _ _ => pass_mono (le_max_right _ _)) hrest⟩

/-- What a pass that ends enters is gone through with less depth. -/
theorem Enters.pass {depth : Nat} {n m : PlanNode} {p q : Progress}
    (h : Enters config rules (m, q) (n, p))
    (hpass : ∃ outcome, pass config rules (depth + 1) n p = some outcome) :
    ∃ outcome, pass config rules depth m q = some outcome := by
  obtain ⟨hfirst, hinputs, hbefore⟩ := h
  have hresult := exists_pass_succ_iff.mp hpass _ _ hfirst
  rw [hinputs] at hresult
  exact pass_of_eachInput hresult hbefore

/-- A pass ends if it ends at everything it enters. -/
theorem ends_of_enters {n : PlanNode} {p : Progress}
    (h : ∀ m q, Enters config rules (m, q) (n, p) → Ends config rules m q) :
    Ends config rules n p := by
  cases hfirst : applyFirst config rules n p with
  | error e => exact ⟨1, .error e, by rw [pass, hfirst]⟩
  | ok first =>
    obtain ⟨r, p'⟩ := first
    obtain ⟨depth, hinputs⟩ :
        ∃ depth result, eachInput (pass config rules depth) r.inputs p' = some result :=
      exists_eachInput fun before m after out q depth hl hbefore =>
        h m q (.input hfirst hl hbefore)
    refine ⟨depth + 1, exists_pass_succ_iff.mpr fun r' p'' hfirst' => ?_⟩
    rw [hfirst] at hfirst'
    cases hfirst'
    exact hinputs

/-- **A pass ends just if it cannot go down forever.** -/
theorem ends_iff {n : PlanNode} {p : Progress} :
    Ends config rules n p ↔ ¬IsEndless config rules n p := by
  have hacc : Ends config rules n p ↔ Acc (Enters config rules) (n, p) := by
    constructor
    · rintro ⟨depth, h⟩
      induction depth generalizing n p with
      | zero =>
        obtain ⟨_, ⟨⟩⟩ := h
      | succ depth ih => exact .intro _ fun ⟨m, q⟩ henters => ih (henters.pass h)
    · intro h
      generalize hroot : (n, p) = root at h
      induction h generalizing n p with
      | intro root _ ih =>
        subst hroot
        exact ends_of_enters fun m q henters => ih (m, q) henters rfl
  rw [hacc, ← not_iff_not, not_not]
  exact not_acc_iff_exists_descending_chain

/-! ### How much a pass does -/

theorem eachInput_applications_le
    {f : PlanNode → Progress → Option (Except RuleError (PlanNode × Progress))}
    (hf : ∀ n m p q, f n p = some (.ok (m, q)) →
      q.applications.length ≤ p.applications.length + m.size)
    {l out : List PlanNode} {p q : Progress} (h : eachInput f l p = some (.ok (out, q))) :
    q.applications.length ≤ p.applications.length + sizes out := by
  induction l generalizing out p with
  | nil =>
    cases h
    exact Nat.le_add_right _ _
  | cons n rest ih =>
    obtain ⟨n', p', rest', hn, hrest, rfl⟩ := eachInput_cons_eq_ok_iff.mp h
    have hone := hf _ _ _ _ hn
    have hothers := ih hrest
    rw [sizes_cons]
    omega

/-- **A pass applies no more rules than it leaves nodes**: one at the root of each tree that
it goes through at most. -/
theorem pass_applications_le {depth : Nat} {n m : PlanNode} {p q : Progress}
    (h : pass config rules depth n p = some (.ok (m, q))) :
    q.applications.length ≤ p.applications.length + m.size := by
  induction depth generalizing n m p q with
  | zero => cases h
  | succ depth ih =>
    obtain ⟨r, p', inputs, hfirst, hinputs, rfl⟩ := pass_succ_eq_ok_iff.mp h
    have hbelow := eachInput_applications_le (fun _ _ _ _ => ih) hinputs
    rw [size_mk]
    rcases applyFirst_length hfirst with ⟨-, -, rfl⟩ | hone
    · omega
    · omega

/-! ### The passes of an optimization -/

variable {plan : Plan}

/-- So many passes over a plan have applied something, and this is what they have come to. -/
inductive After (config : Config) (rules : RuleSet) (plan : Plan) :
    Nat → PlanNode → Progress → Prop
  /-- Nothing has been done yet. -/
  | start : After config rules plan 0 plan.root ⟨plan.nextId, []⟩
  /-- One pass more has applied something. -/
  | pass {made depth : Nat} {root root' : PlanNode} {p p' : Progress} :
    After config rules plan made root p →
      pass config rules depth root p = some (.ok (root', p')) →
        p'.applications.length ≠ p.applications.length →
          After config rules plan (made + 1) root' p'

/-- **The ways in which an optimization ends**, and how many passes it has made then. -/
inductive Concludes (config : Config) (rules : RuleSet) (plan : Plan) :
    Nat → Except RuleError Optimized → Prop
  /-- All passes that are allowed have applied something. -/
  | limit {root : PlanNode} {p : Progress} : After config rules plan config.maxPasses root p →
    Concludes config rules plan config.maxPasses
      (.error ⟨"optimizer", .noFixpoint config.maxPasses⟩)
  /-- The last pass has failed. -/
  | failed {made depth : Nat} {root : PlanNode} {p : Progress} {e : RuleError} :
    After config rules plan made root p → made < config.maxPasses →
      pass config rules depth root p = some (.error e) →
        Concludes config rules plan (made + 1) (.error e)
  /-- The last pass has applied nothing. -/
  | settled {made depth : Nat} {root root' : PlanNode} {p p' : Progress} :
    After config rules plan made root p → made < config.maxPasses →
      pass config rules depth root p = some (.ok (root', p')) →
        p'.applications.length = p.applications.length →
          Concludes config rules plan (made + 1) (.ok ⟨⟨root', p'.nextId⟩, made + 1,
            p'.applications.length, p'.applications.reverse⟩)

/-- No optimization makes more passes than allowed. -/
theorem Concludes.made_le {made : Nat} {result : Except RuleError Optimized}
    (h : Concludes config rules plan made result) : made ≤ config.maxPasses := by
  cases h with
  | limit => exact le_rfl
  | failed _ hmade | settled _ hmade => exact hmade

/-- What the passes have come to is where the rest of the optimization starts. -/
theorem After.run_eq {made : Nat} {root : PlanNode} {p : Progress}
    (h : After config rules plan made root p) (hmade : made ≤ config.maxPasses) :
    ∃ enough, ∀ depth, enough ≤ depth → run depth config rules plan =
      passes config rules depth (config.maxPasses - made) made root p := by
  induction h with
  | start => exact ⟨0, fun _ _ => rfl⟩
  | @pass made depth root root' p p' _ hpass hchanged ih =>
    obtain ⟨enough, hrun⟩ := ih (Nat.le_of_succ_le hmade)
    refine ⟨max enough depth, fun depth' hdepth => ?_⟩
    have hleft : config.maxPasses - made = config.maxPasses - (made + 1) + 1 := by omega
    rw [hrun depth' ((le_max_left _ _).trans hdepth), hleft, passes,
      pass_mono ((le_max_right _ _).trans hdepth) hpass]
    exact if_neg hchanged

/-- **An optimization with a result has come to its end** in one of the three ways. -/
theorem concludes_of_passes {depth left made : Nat} {root : PlanNode} {p : Progress}
    {result : Except RuleError Optimized} (hafter : After config rules plan made root p)
    (hleft : made + left = config.maxPasses)
    (h : passes config rules depth left made root p = some result) :
    ∃ made', Concludes config rules plan made' result := by
  induction left generalizing made root p with
  | zero =>
    cases h
    obtain rfl : made = config.maxPasses := hleft
    exact ⟨_, .limit hafter⟩
  | succ left ih =>
    rw [passes] at h
    split at h
    · cases h
    · next hpass =>
      cases h
      exact ⟨_, .failed hafter (by omega) hpass⟩
    · next hpass =>
      split at h
      · next hsilent =>
        cases h
        exact ⟨_, .settled hafter (by omega) hpass hsilent⟩
      · next hchanged => exact ih (.pass hafter hpass hchanged) (by omega) h

/-- The rest of an optimization ends if all passes that are left to make do. -/
theorem exists_passes {left made : Nat} {root : PlanNode} {p : Progress}
    (h : ∀ made < config.maxPasses, ∀ root p, After config rules plan made root p →
      Ends config rules root p)
    (hafter : After config rules plan made root p) (hleft : made + left = config.maxPasses) :
    ∃ depth result, passes config rules depth left made root p = some result := by
  induction left generalizing made root p with
  | zero => exact ⟨0, _, rfl⟩
  | succ left ih =>
    obtain ⟨depth, outcome, hpass⟩ := h made (by omega) root p hafter
    by_cases hmore : ∃ root' p', outcome = .ok (root', p') ∧
        p'.applications.length ≠ p.applications.length
    · obtain ⟨root', p', rfl, hchanged⟩ := hmore
      obtain ⟨depth', result, hrest⟩ := ih (.pass hafter hpass hchanged) (by omega)
      refine ⟨max depth depth', exists_passes_succ_iff.mpr
        ⟨_, pass_mono (le_max_left _ _) hpass, ?_⟩⟩
      rintro _ _ ⟨⟩ -
      exact ⟨result, passes_mono (le_max_right _ _) hrest⟩
    · refine ⟨depth, exists_passes_succ_iff.mpr ⟨outcome, hpass, fun root' p' heq hchanged => ?_⟩⟩
      exact absurd ⟨root', p', heq, hchanged⟩ hmore

/-- **An optimization ends just if all passes do** that the limit leaves it to make. -/
theorem exists_run_iff : (∃ depth result, run depth config rules plan = some result) ↔
    ∀ made < config.maxPasses, ∀ root p, After config rules plan made root p →
      Ends config rules root p := by
  constructor
  · rintro ⟨depth, result, h⟩ made hmade root p hafter
    obtain ⟨enough, hrun⟩ := hafter.run_eq hmade.le
    have hdeep : run (max enough depth) config rules plan = some result :=
      passes_mono (le_max_right _ _) h
    have hleft : config.maxPasses - made = config.maxPasses - (made + 1) + 1 := by omega
    rw [hrun _ (le_max_left _ _), hleft] at hdeep
    obtain ⟨outcome, hpass, -⟩ := exists_passes_succ_iff.mp ⟨result, hdeep⟩
    exact ⟨_, outcome, hpass⟩
  · exact fun h => exists_passes h .start (Nat.zero_add _)

/-! ### Rules that make no tree higher -/

/-- Heights go up from the inputs of a node to the node. -/
theorem congruence_height : Congruence fun n m => m.height ≤ n.height where
  refl _ := le_rfl
  trans hnm hmk := hmk.trans hnm
  node id op inputs inputs' h := by
    have hbelow : heights inputs' ≤ heights inputs := by
      induction h with
      | nil => exact le_rfl
      | @cons n n' _ _ hn _ ih =>
        have hn' : n'.height ≤ n.height := hn
        rw [heights_cons, heights_cons]
        omega
    rw [height_eq, height_eq]
    exact Nat.add_le_add_left hbelow 1

theorem exists_eachInput_of_forall
    {f : PlanNode → Progress → Option (Except RuleError (PlanNode × Progress))}
    {l : List PlanNode} (h : ∀ n ∈ l, ∀ p, ∃ outcome, f n p = some outcome) (p : Progress) :
    ∃ result, eachInput f l p = some result := by
  induction l generalizing p with
  | nil => exact ⟨_, rfl⟩
  | cons n rest ih =>
    obtain ⟨hn, hrest⟩ := List.forall_mem_cons.mp h
    obtain ⟨outcome, hn⟩ := hn p
    exact exists_eachInput_cons_iff.mpr ⟨outcome, hn, fun _ p' _ => ih hrest p'⟩

/-- **Where no rule makes a tree higher**, a pass goes no deeper than the tree is high. -/
theorem exists_pass_of_height (hrules : Relates rules fun n m => m.height ≤ n.height)
    {depth : Nat} {n : PlanNode} (hheight : n.height ≤ depth) (p : Progress) :
    ∃ outcome, pass config rules depth n p = some outcome := by
  induction depth generalizing n p with
  | zero =>
    rw [height_eq] at hheight
    omega
  | succ depth ih =>
    refine exists_pass_succ_iff.mpr fun r p' hfirst => ?_
    have hlower := (applyFirst_related congruence_height hrules hfirst).trans hheight
    rw [height_eq, Nat.add_comm] at hlower
    have hinputs := heights_le_iff.mp (Nat.le_of_add_le_add_right hlower)
    exact exists_eachInput_of_forall (fun m hm => ih (hinputs m hm)) p'

/-- So the height of the plan is deep enough for all passes. -/
theorem exists_passes_of_height (hrules : Relates rules fun n m => m.height ≤ n.height)
    {depth left made : Nat} {root : PlanNode} (hheight : root.height ≤ depth) (p : Progress) :
    ∃ result, passes config rules depth left made root p = some result := by
  induction left generalizing made root p with
  | zero => exact ⟨_, rfl⟩
  | succ left ih =>
    obtain ⟨outcome, hpass⟩ := exists_pass_of_height hrules hheight p
    refine exists_passes_succ_iff.mpr ⟨outcome, hpass, ?_⟩
    rintro root' p' rfl -
    exact ih ((pass_related congruence_height hrules hpass).trans hheight) p'

/-- A selection that goes into the join below it leaves the tree no higher. -/
theorem relates_height_default : Relates RuleSet.default fun n m => m.height ≤ n.height := by
  intro rule hrule n r next next' happ hrun
  obtain rfl : rule = selectIntoJoin := List.mem_singleton.mp hrule
  obtain ⟨id, filter, tags, j, rfl, -, rfl, -⟩ := replaced_by_selectIntoJoin happ hrun
  rw [height_eq, height_eq ⟨id, _, _⟩, heights_cons, height_eq j]
  dsimp only
  omega

/-- **Optimizing by the default rules always ends.** -/
theorem exists_optimize_default (plan : Plan) (config : Config) :
    ∃ result, plan.optimize config RuleSet.default = some result :=
  exists_passes_of_height relates_height_default le_rfl _

/-! ### When an optimization ends -/

/-- **When an optimization ends, and how.** It ends just if none of the passes that the
limit leaves it to make is endless, and always if no rule makes a tree higher. More depth
does not change its result. It has then made no more passes than allowed, and every one of
them that did not fail has applied no more rules than it has left nodes. -/
theorem ends_of_run (config : Config) (rules : RuleSet) (plan : Plan) :
    ((∃ depth result, run depth config rules plan = some result) ↔
      ∀ made < config.maxPasses, ∀ root p, After config rules plan made root p →
        ¬IsEndless config rules root p) ∧
    (Relates rules (fun n m => m.height ≤ n.height) →
      ∃ result, run plan.root.height config rules plan = some result) ∧
    (∀ depth result, run depth config rules plan = some result →
      (∀ depth', depth ≤ depth' → run depth' config rules plan = some result) ∧
        ∃ made ≤ config.maxPasses, Concludes config rules plan made result) ∧
    (∀ made root p, After config rules plan made root p → ∀ depth root' p',
      pass config rules depth root p = some (.ok (root', p')) →
        p'.applications.length ≤ p.applications.length + root'.size) := by
  refine ⟨?_, fun hrules => exists_passes_of_height hrules le_rfl _, fun depth result h => ?_,
    fun _ _ _ _ _ _ _ => pass_applications_le⟩
  · rw [exists_run_iff]
    simp only [ends_iff]
  · obtain ⟨made, hmade⟩ := concludes_of_passes .start (Nat.zero_add _) h
    exact ⟨fun depth' hle => passes_mono hle h, made, hmade.made_le, hmade⟩

/-! ### An endless pass -/

/-- A rule that puts a selection above every source, with the id next to that of the
source. -/
def aboveSource : Rule where
  name := "AboveSource"
  shape := .node (.kind .source) []
  transform n := return ⟨n.id + 1, .select (.const true) none, [n]⟩

/-- A source alone. -/
def oneSource : Plan := ⟨⟨0, .source "a", []⟩, 1⟩

/-- A selection above the source. -/
def selectedSource : PlanNode := ⟨1, .select (.const true) none, [oneSource.root]⟩

/-- The rule applies to the source whenever it is met, and leaves it below. -/
theorem applyFirst_aboveSource (config : Config) (p : Progress) :
    ∃ p', applyFirst config [aboveSource] oneSource.root p = .ok (selectedSource, p') := by
  refine ⟨⟨p.nextId, applicationOf config aboveSource oneSource.root selectedSource ::
    p.applications⟩, applyFirst_eq_ok_iff.mpr (.inr ⟨aboveSource, rfl, ?_⟩)⟩
  exact applyRule_eq_ok_iff.mpr ⟨p.nextId, rfl, by decide +kernel, by decide +kernel, rfl⟩

theorem pass_aboveSource (depth : Nat) (p : Progress) :
    pass config [aboveSource] depth oneSource.root p = none := by
  induction depth generalizing p with
  | zero => rfl
  | succ depth ih =>
    obtain ⟨p', hfirst⟩ := applyFirst_aboveSource config p
    rw [pass, hfirst, selectedSource]
    dsimp only
    rw [eachInput, ih p']

/-- **A limit for passes does not make an optimization end.** The plan is valid, and there
is no depth that is enough for its first pass. Nor is there a root to be looked at by a gate
behind a shape that names none. -/
theorem endless_aboveSource :
    oneSource.root.check = none ∧ (∀ depth, run depth {} [aboveSource] oneSource = none) ∧
      (Shape.any.bind? oneSource.root).map (fun bound => (Binding.root? ⟨bound⟩).isSome) =
        some false := by
  refine ⟨rfl, fun depth => ?_, rfl⟩
  rw [run, passes, pass_aboveSource depth]

end KeyedSeries.Optimize
