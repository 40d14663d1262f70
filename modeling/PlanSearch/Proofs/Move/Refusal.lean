import PlanSearch.Proofs.Move.Undo

/-!
# Refused moves

A composite of which a part is refused takes back the parts before it. As long as no part takes a
run of several entities out of all chains, every undo move is accepted and the solution is what it
was. Such a run, however, is left linked up outside of all chains. It can be taken apart there, and
neither that nor the part itself can be taken back.
-/

namespace PlanSearch

namespace ChainGraph

variable {g : ChainGraph} {run : SubChain} {h a b : Handle}

/-! ## Runs outside all chains -/

/-- In a valid graph the entities of a run of several are all in a chain. -/
theorem Valid.isSome_predecessor (valid : g.Valid)
    (entity : ∀ h ∈ run.entities, g.kind? h = some .entity)
    (contiguous : Path g.predecessor run.entities) (several : run.length ≠ 1)
    (member : h ∈ run.entities) : (g.predecessor h).isSome := by
  obtain ⟨b, rest, rfl⟩ := run.exists_eq_cons
  cases rest with
  | nil => exact absurd rfl several
  | cons c rest =>
    by_cases head : h = b
    · have link := (List.isChain_cons_cons.1 contiguous).1
      obtain ⟨root, anchor, leads⟩ := valid.anchored c (by simp [link])
      have onwards := (Leads.step link (.refl b)).of_leads leads (valid.anchor_free root anchor)
      rw [head]
      exact onwards.isSome_predecessor (entity b (by simp)) anchor
    · have inner := predecessorIn_of_path contiguous member
      rw [predecessorIn_cons_of_ne head] at inner
      rw [← inner]
      exact isSome_predecessorIn (List.mem_of_ne_of_mem head member)

/-- Nothing can be placed after an entity outside all chains. -/
theorem not_placeable_of_free (kind : g.kind? a = some .entity) (free : g.predecessor a = none) :
    ¬g.Placeable run (some a) := by
  intro placeable
  obtain ⟨root, top⟩ := Option.isSome_iff_exists.1 (placeable.destination a rfl).2.2
  obtain ⟨anchor, leads⟩ := leads_of_anchorWithin top
  have placed := leads.isSome_predecessor kind anchor
  rw [free] at placed
  cases placed

theorem exists_refusal {target : Option Handle} (refused : ¬g.Placeable run target)
    (reversing : Bool) : ∃ e, g.planMove run target reversing = .error e := by
  cases planned : g.planMove run target reversing with
  | error e => exact ⟨e, rfl⟩
  | ok plan => exact absurd (planMove_eq_ok.1 planned).1 refused

/-- The second entity of a linked run can be taken out, and then both it and the first one are
outside all chains. -/
theorem exists_cut (linked : g.Linked) (kind : g.kind? b = some .entity) (other : a ≠ b)
    (link : g.predecessor b = some a) (free : g.predecessor a = none) :
    ∃ plan g', g.planMove (.single b) none false = .ok plan ∧ plan.oldPredecessor = some a ∧
      g.applyPlan plan = .ok g' ∧ (∀ h, g'.kind? h = g.kind? h) ∧ g'.predecessor a = none ∧
      g'.predecessor b = none := by
  have placeable : g.Placeable (.single b) none :=
    ⟨fun h member => List.mem_singleton.1 member ▸ kind, .singleton b, by rintro d ⟨⟩⟩
  have ready : Withdrawable g.predecessor (.single b) := by
    refine ⟨⟨.singleton b, List.nodup_singleton b, fun p above member => ?_⟩, fun h _ => ?_⟩
    · have same : p = a := Option.some.inj (above.symm.trans link)
      exact other (same.symm.trans (List.mem_singleton.1 member))
    · exact Option.isSome_iff_exists.2 ⟨a, link⟩
  obtain ⟨g', written, moved⟩ :
      ∃ g', g.writeLinks (g.plannedLinks (.single b) none false) = .ok g' ∧
        g.Relocated (.single b) none false g' := exists_relocated linked ready placeable
  refine ⟨_, g', planMove_eq_ok.2 ⟨placeable, rfl⟩, link, written, moved.kind, ?_, ?_⟩
  · rw [moved.predecessor, relocated_of_notMem, free]
    · exact fun member => other (List.mem_singleton.1 member)
    · rw [free]
      rintro ⟨⟩
    · rintro d ⟨⟩
  · rw [moved.predecessor]
    exact relocated_first

/-- A run that was taken out is still linked up. -/
theorem Relocated.links_of_none {l : List Handle} {g' : ChainGraph} {reversing : Bool}
    (moved : g.Relocated run none reversing g')
    (block : (run.oriented reversing).entities = a :: b :: l) (other : a ≠ b) :
    g'.predecessor a = none ∧ g'.predecessor b = some a := by
  have first : a ∈ (run.oriented reversing).entities := by simp [block]
  have second : b ∈ (run.oriented reversing).entities := by simp [block]
  rw [moved.predecessor_of_mem first, moved.predecessor_of_mem second, block,
    predecessorIn_cons_self, predecessorIn_cons_of_ne (Ne.symm other), predecessorIn_cons_self]
  exact ⟨rfl, rfl⟩

/-- From a run of several entities that was taken out the second one can be taken off. Then neither
it nor the run can be put back. -/
theorem Valid.exists_stuck (valid : g.Valid) {reversing : Bool} {plan : SplicePlan}
    (planned : g.planMove run none reversing = .ok plan) (several : run.length ≠ 1) :
    ∃ a b g₁ plan' g₂, g.applyPlan plan = .ok g₁ ∧
      g₁.planMove (.single b) none false = .ok plan' ∧ plan'.oldPredecessor = some a ∧
      g₁.applyPlan plan' = .ok g₂ ∧ (g.predecessor b).isSome ∧ g₂.predecessor b = none ∧
      ¬g₂.Placeable (.single b) (some a) ∧
      ¬g₂.Placeable (run.oriented reversing) plan.oldPredecessor := by
  obtain ⟨placeable, g₁, written, moved⟩ := valid.applyPlan planned
  have ready := valid.withdrawable placeable.entity placeable.contiguous
  have length : (run.oriented reversing).length ≠ 1 := by rwa [SubChain.length_oriented]
  obtain ⟨a, b, others, block⟩ := SubChain.exists_cons_cons length
  have nodup : (a :: b :: others).Nodup := block ▸ SubChain.nodup_oriented.2 ready.nodup
  have other : a ≠ b := by
    rintro rfl
    simp at nodup
  have inRun : ∀ h ∈ a :: b :: others, h ∈ run.entities := by
    intro h member
    rwa [← block, SubChain.mem_oriented] at member
  have entity (h : Handle) (member : h ∈ a :: b :: others) : g₁.kind? h = some .entity :=
    (moved.kind h).trans (placeable.entity h (inRun h member))
  obtain ⟨free, link⟩ := moved.links_of_none block other
  obtain ⟨plan', g₂, planned', old, written', kind, free', cut⟩ :=
    exists_cut moved.linked (entity b (by simp)) other link free
  have placed := valid.isSome_predecessor placeable.entity placeable.contiguous several
    (inRun b (by simp))
  refine ⟨a, b, g₁, plan', g₂, written, planned', old, written', placed, cut,
    not_placeable_of_free ((kind a).trans (entity a (by simp))) free', fun again => ?_⟩
  have path := again.contiguous
  rw [block, Path, List.isChain_cons_cons, cut] at path
  cases path.1

end ChainGraph

namespace Move

variable {S : Type} {vars : Variables S} {v : ChainedVariable S} {m : Move S}
variable {parts undos : List (Move S)} {run : SubChain} {reversing : Bool} {s origin : S}
variable {e : ChainError}

/-! ## Taking parts back -/

/-- If the undo moves collected so far lead back to the origin, a refusal of a later part does. -/
theorem solution_of_refused_parts
    (reverts : ∀ part ∈ parts, ∀ s undo, vars.Valid s → (part.apply s).result = .ok undo →
      Reverts vars part s undo)
    (restores : ∀ part ∈ parts, ∀ s e, vars.Valid s → (part.apply s).result = .error e →
      (part.apply s).solution = s)
    (valid : vars.Valid s) (back : (rollBack apply undos s).1 = origin)
    (refused : (applyParts apply parts undos s).result = .error e) :
    (applyParts apply parts undos s).solution = origin := by
  induction parts generalizing undos s with
  | nil => cases refused
  | cons part rest ih =>
    cases first : (part.apply s).result with
    | error e =>
      rw [applyParts_cons_of_error first, restores part (by simp) s e valid first]
      exact back
    | ok undo =>
      have taken := reverts part (by simp) s undo valid first
      rw [applyParts_cons_of_ok first] at refused ⊢
      refine ih (fun m member => reverts m (by simp [member]))
        (fun m member => restores m (by simp [member])) taken.valid ?_ refused
      rw [rollBack, taken.solution, back]

theorem solution_of_refused_relocate {back : Option Handle → Move S} {target : Option Handle}
    (lawful : v.Lawful) (valid : (v.graph s).Valid)
    (refused : (relocate v run target reversing back s).result = .error e) :
    (relocate v run target reversing back s).solution = s := by
  cases planned : (v.graph s).planMove run target reversing with
  | error e => rw [relocate_refused back planned]
  | ok plan =>
    obtain ⟨-, g', written, -⟩ := valid.applyPlan planned
    rw [relocate_eq lawful back planned written] at refused
    cases refused

/-- A refused move leaves the solution as it was. -/
theorem solution_of_refused (lawful : vars.Lawful) (own : m.Over vars) (keeps : m.KeepsRuns)
    (valid : vars.Valid s) (refused : (m.apply s).result = .error e) :
    (m.apply s).solution = s := by
  have graph (v : ChainedVariable S) (member : v ∈ vars.chained) : (v.graph s).Valid :=
    ChainGraph.validate_eq_ok_iff.1 (valid v member)
  induction m using Move.induction generalizing s e with
  | change v e x =>
    rw [apply_change] at refused
    split at refused <;> cases refused
  | chainedChange v e target =>
    cases own with
    | chainedChange _ _ member =>
      rw [apply_chainedChange] at refused ⊢
      exact solution_of_refused_relocate (lawful.chained v member) (graph v member) refused
  | changePart v run target =>
    cases own with
    | changePart _ _ member =>
      rw [apply_changePart] at refused ⊢
      exact solution_of_refused_relocate (lawful.chained v member) (graph v member) refused
  | reverseChangePart v run target =>
    cases own with
    | reverseChangePart _ _ member =>
      rw [apply_reverseChangePart] at refused ⊢
      exact solution_of_refused_relocate (lawful.chained v member) (graph v member) refused
  | composite parts ih =>
    cases own with
    | composite own =>
      cases keeps with
      | composite keeps =>
        rw [apply_composite] at refused ⊢
        refine solution_of_refused_parts (fun part member s undo => ?_)
          (fun part member s e valid refused => ?_) valid rfl refused
        · exact reverts lawful (own part member) (keeps part member)
        · exact ih part member (own part member) (keeps part member) valid refused
            fun v known => ChainGraph.validate_eq_ok_iff.1 (valid v known)

/-! ## What cannot be taken back -/

/-- Moves a run, head first or tail first. -/
def moveRun (v : ChainedVariable S) (run : SubChain) (target : Option Handle) (reversing : Bool) :
    Move S :=
  if reversing then .reverseChangePart v run target else .changePart v run target

theorem apply_moveRun (v : ChainedVariable S) (run : SubChain) (target : Option Handle)
    (reversing : Bool) (s : S) : (moveRun v run target reversing).apply s =
      relocate v run target reversing
        (fun old => moveRun v (run.oriented reversing) old reversing) s := by
  cases reversing with
  | false => exact apply_changePart v run target s
  | true => exact apply_reverseChangePart v run target s

theorem relocate_of_not_placeable {target : Option Handle}
    (refused : ¬(v.graph s).Placeable run target) (reversing : Bool)
    (back : Option Handle → Move S) :
    ∃ e, relocate v run target reversing back s = ⟨s, [], .error e⟩ := by
  obtain ⟨e, planned⟩ := ChainGraph.exists_refusal refused reversing
  exact ⟨e, relocate_refused back planned⟩

/-- Two parts are applied, the third one and both undo moves are refused. -/
theorem apply_of_stuck {m₁ m₂ m₃ undo₁ undo₂ : Move S} {s₁ s₂ : S} {log₁ log₂ : List Notification}
    {e₁ e₂ : ChainError} (first : m₁.apply s = ⟨s₁, log₁, .ok undo₁⟩)
    (second : m₂.apply s₁ = ⟨s₂, log₂, .ok undo₂⟩) (third : m₃.apply s₂ = ⟨s₂, [], .error e⟩)
    (back₂ : undo₂.apply s₂ = ⟨s₂, [], .error e₂⟩)
    (back₁ : undo₁.apply s₂ = ⟨s₂, [], .error e₁⟩) :
    (Move.composite [m₁, m₂, m₃]).apply s = ⟨s₂, log₁ ++ log₂, .error e⟩ := by
  simp [apply_composite, applyParts, first, second, third, rollBack, back₂, back₁]

/-- A run of several entities is taken out, its second entity is taken off, and a part is refused.
The taken off entity cannot be put back behind the first one, which is in no chain, and without it
the run cannot be moved back. -/
theorem exists_not_restored (lawful : v.Lawful) (valid : (v.graph s).Valid) {plan : SplicePlan}
    (planned : (v.graph s).planMove run none reversing = .ok plan) (several : run.length ≠ 1) :
    ∃ a b e, let parts := [moveRun v run none reversing, .chainedChange v b none,
        .chainedChange v a (some a)]
      ((Move.composite parts).apply s).result = .error e ∧
        ((Move.composite parts).apply s).solution ≠ s := by
  obtain ⟨a, b, g₁, plan', g₂, written, planned', old, written', placed, cut, keptOff, keptOut⟩ :=
    valid.exists_stuck planned several
  -- Three parts and two undo moves, each applied to the solution that the one before it left.
  let s₁ := v.withGraph s g₁
  let s₂ := v.withGraph s₁ g₂
  have graph₁ : v.graph s₁ = g₁ := lawful.graph_withGraph s g₁
  have graph₂ : v.graph s₂ = g₂ := lawful.graph_withGraph s₁ g₂
  rw [← graph₁] at planned' written'
  rw [← graph₂] at keptOff keptOut
  have takeOut := relocate_eq lawful
    (fun old => moveRun v (run.oriented reversing) old reversing) planned written
  have takeOff := relocate_eq lawful (fun old => .chainedChange v b old) planned' written'
  have inside : ¬(v.graph s₂).Placeable (.single a) (some a) := fun placeable =>
    placeable.away a rfl (List.mem_singleton_self a)
  obtain ⟨e, refused⟩ := relocate_of_not_placeable inside false fun old => .chainedChange v a old
  obtain ⟨_, back₂⟩ := relocate_of_not_placeable keptOff false fun old => .chainedChange v b old
  obtain ⟨_, back₁⟩ := relocate_of_not_placeable keptOut reversing
    fun old => moveRun v ((run.oriented reversing).oriented reversing) old reversing
  rw [← apply_moveRun] at takeOut back₁
  rw [← apply_chainedChange] at takeOff refused back₂
  rw [old] at takeOff
  have applied := apply_of_stuck takeOut takeOff refused back₂ back₁
  refine ⟨a, b, e, ?_⟩
  dsimp only
  rw [applied]
  refine ⟨rfl, fun same => ?_⟩
  have graph : v.graph s = g₂ := (congrArg v.graph same).symm.trans graph₂
  rw [graph, cut] at placed
  cases placed

theorem over_moveRun (member : v ∈ vars.chained) (target : Option Handle) :
    (moveRun v run target reversing).Over vars := by
  cases reversing with
  | false => exact .changePart run target member
  | true => exact .reverseChangePart run target member

theorem keepsRuns_moveRun {target : Option Handle} (single : target = none → run.length = 1) :
    (moveRun v run target reversing).KeepsRuns := by
  cases reversing with
  | false => exact .changePart v single
  | true => exact .reverseChangePart v single

/-- Whatever is refused, watchers are told closed brackets. A refused move leaves the solution as it
was if no part takes a run of several entities out of all chains. Every part that does so can be
followed by other parts with which the solution is not restored. -/
theorem apply_refused (vars : Variables S) (lawful : vars.Lawful) :
    (∀ (m : Move S) (s : S), Notification.isBalanced (m.apply s).notifications) ∧
    (∀ (m : Move S) (s : S) (e : ChainError), m.Over vars → m.KeepsRuns → vars.Valid s →
      (m.apply s).result = .error e → (m.apply s).solution = s) ∧
    ∀ v ∈ vars.chained, ∀ (s : S) (run : SubChain) (target : Option Handle) (reversing : Bool)
      (plan : SplicePlan), vars.Valid s → (v.graph s).planMove run target reversing = .ok plan →
      ((∀ rest : List (Move S), (∀ part ∈ rest, part.Over vars ∧ part.KeepsRuns) → ∀ e,
          ((Move.composite (moveRun v run target reversing :: rest)).apply s).result = .error e →
          ((Move.composite (moveRun v run target reversing :: rest)).apply s).solution = s) ↔
        (target = none → run.length = 1)) := by
  refine ⟨isBalanced_notifications, fun m s e own keeps valid refused =>
    solution_of_refused lawful own keeps valid refused, ?_⟩
  intro v member s run target reversing plan valid planned
  constructor
  · rintro restored rfl
    by_contra several
    obtain ⟨a, b, e, refused, changed⟩ := exists_not_restored (lawful.chained v member)
      (ChainGraph.validate_eq_ok_iff.1 (valid v member)) planned several
    refine changed (restored _ ?_ e refused)
    exact List.forall_mem_cons.2 ⟨⟨.chainedChange b none member, .chainedChange v b none⟩,
      List.forall_mem_singleton.2
        ⟨.chainedChange a (some a) member, .chainedChange v a (some a)⟩⟩
  · intro single rest allowed e refused
    refine solution_of_refused lawful (.composite ?_) (.composite ?_) valid refused
    · exact List.forall_mem_cons.2 ⟨over_moveRun member target, fun m here => (allowed m here).1⟩
    · exact List.forall_mem_cons.2 ⟨keepsRuns_moveRun single, fun m here => (allowed m here).2⟩

end Move

namespace Necklace

/-- Moves both beads to the second string, and then a bead behind itself. -/
def impossible : Move Necklace :=
  .composite [.changePart previous beads (some ⟨1⟩), .chainedChange previous ⟨2⟩ (some ⟨2⟩)]

theorem result_impossible : (impossible.apply plain).result = .error (.cycle ⟨2⟩ ⟨2⟩) := rfl

theorem over_impossible : impossible.Over vars := by
  refine .composite (List.forall_mem_cons.2 ⟨.changePart _ _ (by simp [vars]), ?_⟩)
  exact List.forall_mem_singleton.2 (.chainedChange _ _ (by simp [vars]))

theorem keepsRuns_impossible : impossible.KeepsRuns := by
  refine .composite (List.forall_mem_cons.2 ⟨.changePart _ (by rintro ⟨⟩), ?_⟩)
  exact List.forall_mem_singleton.2 (.chainedChange _ _ _)

theorem apply_refused_plain :
    (impossible.apply plain).result = .error (.cycle ⟨2⟩ ⟨2⟩) ∧
    (impossible.apply plain).solution = plain ∧
    ∃ rest e, let m := Move.composite (Move.moveRun previous beads none false :: rest)
      (∀ part ∈ rest, part.Over vars ∧ part.KeepsRuns) ∧ (m.apply plain).result = .error e ∧
        (m.apply plain).solution ≠ plain := by
  obtain ⟨-, restored, limit⟩ := Move.apply_refused vars lawful_vars
  refine ⟨result_impossible, restored impossible plain _ over_impossible keepsRuns_impossible
    valid_plain result_impossible, ?_⟩
  have planned : (previous.graph plain).planMove beads none false =
      .ok ⟨some ⟨0⟩, [⟨⟨2⟩, some ⟨0⟩, none⟩]⟩ := rfl
  have several : ¬(none = (none : Option Handle) → beads.length = 1) := by decide
  have stuck := mt (limit previous (by simp [vars]) plain beads none false _ valid_plain
    planned).1 several
  simp only [not_forall] at stuck
  obtain ⟨rest, allowed, e, failed, changed⟩ := stuck
  exact ⟨rest, e, allowed, failed, changed⟩

end Necklace

end PlanSearch
