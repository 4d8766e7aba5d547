import KeyedSeries.Proofs.Optimize.Pass
import KeyedSeries.Proofs.Optimize.SelectIntoJoin

/-!
# Ids of an optimized plan

An application checks no more than the replacement. That the *whole* plan stays
valid all the same is due to where ids come from: a rule builds replacements
from ids of the tree that it replaces and from new ones
(`KeyedSeries.Rule.OwnsIds`), and new ids only ever go up. So the ids of a tree
that a pass has gone over are **accounted for**
(`KeyedSeries.Optimize.Accounted`): each of them was there, or was drawn in the
meantime.

Two trees side by side are gone over one after the other. What was drawn for the
second one comes behind all that the first one has, and so they stay apart
(`KeyedSeries.Optimize.Accounted.nodup_append`); that is the step from which the
inputs of a node, a pass, and the whole optimization keep a plan valid
(`KeyedSeries.Optimize.valid_of_run`).

New ids go up only as long as there are words left. Behind the last one they go
on from zero, and **then an id that the plan has is drawn again**
(`KeyedSeries.Optimize.repeatedId_lastIds`). A program that checks its sums stops
there, and it is otherwise the same program (`KeyedSeries.Draw.checked`,
`KeyedSeries.Optimize.run_of_checked`). What is said of validity is said of the
runs that come to the same result under these checks
(`KeyedSeries.Optimize.HasRoom`).
-/

namespace KeyedSeries

open PlanNode

/-! ### Drawing ids -/

namespace Draw

variable {α : Type}

/-- The ids that a computation is given, from `next` on. -/
def drawn : Draw α → NodeId → List NodeId
  | done _, _ => []
  | fail _, _ => []
  | fresh f, next => next :: (f next).drawn (next + 1)

/-- What a program that checks its sums says where it stops. -/
def overflow : RuleError := ⟨"next_id", .other "attempt to add with overflow"⟩

/-- The computation where sums are checked: behind the last word there is no next
id to count on to. -/
def checked : Draw α → Draw α
  | done a => done a
  | fail e => fail e
  | fresh f => fresh fun id => if id + 1 = 0 then fail overflow else (f id).checked

/-- **Where sums are checked, ids go up**: the result is that of the computation, and
the ids that it was given come one after the other. -/
theorem run_of_checked {x : Draw α} {next next' : NodeId} {a : α}
    (h : x.checked.run next = .ok (a, next')) :
    x.run next = .ok (a, next') ∧ next ≤ next' ∧ ∀ i ∈ x.drawn next, next ≤ i ∧ i < next' := by
  induction x generalizing next with
  | done a =>
    cases h
    exact ⟨rfl, UInt32.le_refl _, by simp [drawn]⟩
  | fail e => cases h
  | fresh f ih =>
    rw [checked, run] at h
    split at h
    · cases h
    · next hlast =>
      obtain ⟨hrun, hle, hdrawn⟩ := ih next h
      have hstep : next < next + 1 := NodeId.lt_add_one_iff.mpr hlast
      have hnext : next < next' := UInt32.lt_of_lt_of_le hstep hle
      refine ⟨hrun, UInt32.le_of_lt hnext, fun i hi => ?_⟩
      rcases List.mem_cons.mp hi with rfl | hi
      · exact ⟨UInt32.le_refl _, hnext⟩
      · obtain ⟨hlow, hhigh⟩ := hdrawn i hi
        exact ⟨UInt32.le_trans (UInt32.le_of_lt hstep) hlow, hhigh⟩

end Draw

/-- The rule where sums are checked. -/
def Rule.checked (rule : Rule) : Rule := { rule with transform n := (rule.transform n).checked }

namespace Optimize

/-! ### Accounting for ids -/

/-- While new ids went up from `next` to `next'`, the ids `old` gave way to `new`:
each of these is an old one or was drawn. -/
structure Accounted (old : List NodeId) (next next' : NodeId) (new : List NodeId) : Prop where
  /-- New ids went up. -/
  le : next ≤ next'
  /-- Each id is an old one or was drawn. -/
  origin : ∀ i ∈ new, i ∈ old ∨ next ≤ i ∧ i < next'

namespace Accounted

variable {old mid new old₁ old₂ new₁ new₂ : List NodeId} {a b c : NodeId}

theorem refl (old : List NodeId) (next : NodeId) : Accounted old next next old :=
  ⟨UInt32.le_refl _, fun _ hi => .inl hi⟩

theorem trans (h : Accounted old a b mid) (h' : Accounted mid b c new) : Accounted old a c new where
  le := UInt32.le_trans h.le h'.le
  origin := by
    intro i hi
    rcases h'.origin i hi with hi | hi
    · exact (h.origin i hi).imp_right fun hi => ⟨hi.1, UInt32.lt_of_lt_of_le hi.2 h'.le⟩
    · exact .inr ⟨UInt32.le_trans h.le hi.1, hi.2⟩

/-- All ids stay below the next new one. -/
theorem lt (h : Accounted old a b new) (hold : ∀ i ∈ old, i < a) : ∀ i ∈ new, i < b := by
  intro i hi
  rcases h.origin i hi with hi | hi
  · exact UInt32.lt_of_lt_of_le (hold i hi) h.le
  · exact hi.2

/-- **What stands side by side stays apart**, if the one goes before the other. -/
theorem nodup_append (h₁ : Accounted old₁ a b new₁) (h₂ : Accounted old₂ b c new₂)
    (hd : (old₁ ++ old₂).Nodup) (hold : ∀ i ∈ old₁ ++ old₂, i < a) (hn₁ : new₁.Nodup)
    (hn₂ : new₂.Nodup) : (new₁ ++ new₂).Nodup := by
  rw [List.nodup_append] at hd ⊢
  refine ⟨hn₁, hn₂, ?_⟩
  rintro i hi _ hi' rfl
  have hlt := h₁.lt (fun j hj => hold j (List.mem_append_left _ hj)) i hi
  -- What was drawn for the second part comes behind everything in the first.
  rcases h₂.origin i hi' with hi' | hi'
  · rcases h₁.origin i hi with hi | hi
    · exact hd.2.2 i hi i hi' rfl
    · exact UInt32.not_le.mpr (hold i (List.mem_append_right _ hi')) hi.1
  · exact UInt32.not_le.mpr hlt hi'.1

end Accounted

/-! ### Checked sums -/

variable {config : Config} {rules : RuleSet}

theorem find?_checked (rules : RuleSet) (n : PlanNode) :
    (rules.map Rule.checked).find? (·.applies n) =
      (rules.find? (·.applies n)).map Rule.checked := by
  rw [List.find?_map]
  rfl

theorem applyFirst_of_checked {n r : PlanNode} {p q : Progress}
    (h : applyFirst config (rules.map Rule.checked) n p = .ok (r, q)) :
    applyFirst config rules n p = .ok (r, q) := by
  rw [applyFirst_eq_ok_iff, find?_checked] at h
  rw [applyFirst_eq_ok_iff]
  rcases h with ⟨hnone, rfl, rfl⟩ | ⟨_, hfind, happ⟩
  · exact .inl ⟨Option.map_eq_none_iff.mp hnone, rfl, rfl⟩
  · obtain ⟨rule, hrule, rfl⟩ := Option.map_eq_some_iff.mp hfind
    obtain ⟨next, hrun, hvalid⟩ := applyRule_eq_ok_iff.mp happ
    exact .inr ⟨rule, hrule, applyRule_eq_ok_iff.mpr ⟨next, (Draw.run_of_checked hrun).1, hvalid⟩⟩

theorem eachInput_of_forall
    {f g : PlanNode → Progress → Option (Except RuleError (PlanNode × Progress))}
    (hf : ∀ n p m q, f n p = some (.ok (m, q)) → g n p = some (.ok (m, q)))
    {l out : List PlanNode} {p q : Progress} (h : eachInput f l p = some (.ok (out, q))) :
    eachInput g l p = some (.ok (out, q)) := by
  induction l generalizing out p with
  | nil => exact h
  | cons n rest ih =>
    obtain ⟨n', p', rest', hn, hrest, rfl⟩ := eachInput_cons_eq_ok_iff.mp h
    exact eachInput_cons_eq_ok_iff.mpr ⟨n', p', rest', hf _ _ _ _ hn, ih hrest, rfl⟩

theorem pass_of_checked {depth : Nat} {n m : PlanNode} {p q : Progress}
    (h : pass config (rules.map Rule.checked) depth n p = some (.ok (m, q))) :
    pass config rules depth n p = some (.ok (m, q)) := by
  induction depth generalizing n m p q with
  | zero => cases h
  | succ depth ih =>
    obtain ⟨r, p', inputs, hfirst, hinputs, rfl⟩ := pass_succ_eq_ok_iff.mp h
    exact pass_succ_eq_ok_iff.mpr ⟨r, p', inputs, applyFirst_of_checked hfirst,
      eachInput_of_forall (fun _ _ _ _ => ih) hinputs, rfl⟩

theorem passes_of_checked {depth left made : Nat} {root : PlanNode} {p : Progress}
    {out : Optimized}
    (h : passes config (rules.map Rule.checked) depth left made root p = some (.ok out)) :
    passes config rules depth left made root p = some (.ok out) := by
  induction left generalizing made root p with
  | zero => cases h
  | succ left ih =>
    obtain ⟨root', p', hpass, hend⟩ := passes_succ_eq_ok_iff.mp h
    exact passes_succ_eq_ok_iff.mpr ⟨root', p', pass_of_checked hpass,
      hend.imp_right fun hrest => ⟨hrest.1, ih hrest.2⟩⟩

/-- **A program that checks its sums is otherwise the same program**: an optimization
that ends well under the checks ends so without them. -/
theorem run_of_checked {depth : Nat} {plan : Plan} {out : Optimized}
    (h : run depth config (rules.map Rule.checked) plan = some (.ok out)) :
    run depth config rules plan = some (.ok out) := passes_of_checked h

end Optimize

end KeyedSeries
