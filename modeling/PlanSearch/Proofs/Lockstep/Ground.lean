import PlanSearch.Proofs.Assembly.Registered
import PlanSearch.Proofs.Lockstep.Assembly
import PlanSearch.Proofs.Lockstep.History
import PlanSearch.Proofs.Lockstep.Sound

/-!
# Searches on solid ground

A search is followed by itself. What is known at the beginning of every step is known wherever a
step was completed and at the end, whatever the solver was used for before. The moves of a registry
are not refused where they are doable, so that no error comes of them.
-/

namespace PlanSearch

open Assembly Solver

variable {M S : Type} {sh : Shape}

/-! ## One search -/

section Alone

variable {solver : Solver M S sh} {good : Move S → Prop}
variable {around : Surroundings S sh}

namespace Grounds

/-- What searches rely on whose moves are over lawful variables, if nothing more is known of what
they do. -/
def unrestricted {c : Conditions S sh} {vars : Variables S} (problemLawful : c.problem.Lawful)
    (lawful : vars.Lawful) (blind : vars.Blind c.problem) :
    Grounds c c.mode fun m => m.Over vars ∧ m.KeepsRuns where
  vars := vars
  strict := True
  keeps _ _ := True
  errors e := ∃ why, e = .chain why
  faults _ := True
  anneals := True
  inside _ := True
  problemLawful := problemLawful
  varsLawful := lawful
  blind := blind
  mode_eq _ := rfl
  isOver _ := And.left
  keepsRuns _ := And.right
  refused _ _ e _ _ _ _ := ⟨e, rfl⟩
  not_stalled _ := fun ⟨why, same⟩ stalled =>
    PlanError.not_isSettled_chain why (.inl (same ▸ stalled))
  keeps_refl _ := trivial
  keeps_trans _ _ _ _ _ := trivial
  keeps_apply _ _ _ _ _ _ := trivial
  confined := c.problem.confined_anywhere _ True
  exhausted := trivial

variable {G : Grounds (solver.conditions around) solver.mode good} {x : Score sh} {i k : Mark S sh}
variable {a : Milestone S sh}

variable {Looks : S → S → Prop}

/-- Guides for searches in the same state guide searches that are one and the same. -/
def guides (strict : G.strict) (looks : ∀ s, G.inside s → Looks s s)
    (guides : Guides Looks good G.faults G.anneals solver.phases) :
    Guides G.lockstep.Same good G.lockstep.faults G.lockstep.anneals solver.phases :=
  guides.weaken (fun s _ same => same.strict strict ▸ looks s same.left) (fun _ => id) id

/-- A run takes its course from the solution that it begins with, if its states are related to
themselves. -/
theorem course_alone (strict : G.strict)
    (guides : Guides Looks good G.faults G.anneals solver.phases)
    (looks : ∀ s, G.inside s → Looks s s)
    {st : solver.State} (resting : guides.Resting st.phases st.phases) {solution : S}
    (valid : G.vars.Valid solution) (inside : G.inside solution)
    (known : ∀ y, around.problem.calculate solution = .ok y → y = x) (entropy : Nat) :
    ∃ k, G.lockstep.Along (opening around.problem solution x)
        (solver.trail around entropy solution st) (solver.trail around entropy solution st) k ∧
      G.lockstep.Answers (G.guides strict looks guides) (st.interrupted = true) k
        (solver.solve around entropy solution st) (solver.solve around entropy solution st) :=
  Lockstep.course_solve (L := G.lockstep) around rfl (G.guides strict looks guides) st st
    (Guides.resting_weaken.2 resting) rfl
    (together_start (G := G) (s := solver.opening entropy solution) rfl rfl valid inside known)

end Grounds

/-- The states after a history are related to themselves, if those at the start are and errors leave
such states behind. -/
theorem Solver.Reached.resting {faults : Fault → Prop} {anneals : Prop}
    {guides : Guides (· = ·) good faults anneals solver.phases}
    {allowed : Except PlanError S → Prop} {st : solver.State} (reached : solver.Reached allowed st)
    (begins : guides.Resting solver.start.phases solver.start.phases)
    (closed : ∀ e a b, guides.Left e a b → guides.Resting a b) :
    guides.Resting st.phases st.phases :=
  Guides.resting_weaken.1 (Lockstep.resting_self
    (guides.weaken (fun _ _ => id) (fun _ _ => trivial) fun _ => trivial) (Guides.resting_weaken.2 begins)
    (fun e _ _ _ _ left => Guides.resting_weaken.2 (closed e _ _ (Guides.left_weaken.1 left)))
    reached)

end Alone

/-! ## Built searches -/

section Registered

variable {c : Conditions S sh} {mode : Config.EnvironmentMode}

/-- What searches with moves of a registry rely on. -/
def Assembly.Registry.grounds (r : Registry S) {good : Move S → Prop}
    (offers : ∀ m, good m → r.Offers m) (problemLawful : c.problem.Lawful)
    (lawful : r.written.Lawful) (blind : r.written.Blind c.problem) (strict : Prop)
    (mode_eq : strict → mode = c.mode) (keeps : S → S → Prop) (keeps_refl : ∀ w, keeps w w)
    (keeps_trans : ∀ u v w, keeps u v → keeps v w → keeps u w)
    (keeps_apply : ∀ m w undo, r.Offers m → r.written.Valid w → (m.apply w).result = .ok undo →
      keeps w (m.apply w).solution)
    {faults : Fault → Prop} {anneals : Prop} {inside : S → Prop}
    (confined : c.problem.Confined good faults anneals inside) (exhausted : faults .exhausted) :
    Grounds c mode good where
  vars := r.written
  strict := strict
  keeps := keeps
  errors _ := False
  faults := faults
  anneals := anneals
  inside := inside
  problemLawful := problemLawful
  varsLawful := lawful
  blind := blind
  mode_eq := mode_eq
  isOver m isGood := (offers m isGood).over
  keepsRuns m isGood := (offers m isGood).keepsRuns
  refused m w e isGood valid doable refused := by
    obtain ⟨undo, applied⟩ := (offers m isGood).exists_undo lawful valid doable
    rw [refused] at applied
    cases applied
  not_stalled _ := False.elim
  keeps_refl := keeps_refl
  keeps_trans := keeps_trans
  keeps_apply m w undo isGood := keeps_apply m w undo (offers m isGood)
  confined := confined
  exhausted := exhausted

/-- Necklaces of the same looks are the same to all that is registered. -/
theorem ScoredNecklace.even_registry {Same : ScoredNecklace → ScoredNecklace → Prop}
    (looks : ∀ s s', Same s s' → s.necklace = s'.necklace) (faults : Fault → Prop) :
    registry.Even Same faults := by
  refine ⟨List.forall_mem_cons.2 ⟨fun s s' same => ?_, List.forall_mem_singleton.2
    fun s s' same => ?_⟩, Plugins.even_empty, Plugins.even_empty⟩
  · exact ⟨congrArg Necklace.colour (looks s s' same), rfl, rfl⟩
  · have graphs := congrArg Necklace.graph (looks s s' same)
    exact ⟨graphs, congrArg ChainGraph.entities graphs, congrArg ChainGraph.handles graphs⟩

end Registered

end PlanSearch
