import PlanSearch.Problem
import PlanSearch.Proofs.Move.Undo

/-!
# Moves and the stored score

The search stores a score in the working solution, which is no planning variable. Moves of variables
that do not see the stored score neither look at it nor change it. Where no watcher is told of
anything, nothing was changed.
-/

namespace PlanSearch

variable {S : Type} {sh : Shape}

namespace Problem

variable (p : Problem S sh)

/-- The solution without its stored score. -/
def bare (s : S) : S := p.withScore s none

variable {p} (lawful : p.Lawful)
include lawful

theorem Lawful.bare_withScore (s : S) (x : Option (Score sh)) : p.bare (p.withScore s x) = p.bare s :=
  lawful.withScore_withScore s x none

theorem Lawful.bare_bare (s : S) : p.bare (p.bare s) = p.bare s := lawful.bare_withScore s none

/-- A solution is what it is without its stored score, and that score. -/
theorem Lawful.withScore_bare (s : S) : p.withScore (p.bare s) (p.score s) = s :=
  (lawful.withScore_withScore s none _).trans (lawful.withScore_score s)

theorem Lawful.calculate_bare (s : S) : p.calculate (p.bare s) = p.calculate s :=
  lawful.calculate_withScore s none

theorem Lawful.isInitialized_bare (s : S) : p.isInitialized (p.bare s) = p.isInitialized s :=
  lawful.isInitialized_withScore s none

end Problem

/-- Storing a score shows in no variable. -/
structure Variables.Blind (vars : Variables S) (p : Problem S sh) : Prop where
  get : ∀ v ∈ vars.plain, ∀ s x e, v.get (p.withScore s x) e = v.get s e
  set : ∀ v ∈ vars.plain, ∀ s x e y, v.set (p.withScore s x) e y = p.withScore (v.set s e y) x
  graph : ∀ v ∈ vars.chained, ∀ s x, v.graph (p.withScore s x) = v.graph s
  withGraph : ∀ v ∈ vars.chained, ∀ s x g,
    v.withGraph (p.withScore s x) g = p.withScore (v.withGraph s g) x

theorem Variables.Blind.valid_withScore {vars : Variables S} {p : Problem S sh} (blind : vars.Blind p)
    (s : S) (x : Option (Score sh)) : vars.Valid (p.withScore s x) ↔ vars.Valid s := by
  unfold Valid
  refine forall₂_congr fun c member => ?_
  rw [blind.graph c member]

/-- The same result with a changed solution. -/
def Applied.mapSolution (f : S → S) (a : Applied S) : Applied S := { a with solution := f a.solution }

namespace Move

variable {m undo : Move S} {parts undos : List (Move S)} {s : S} {n : Nat}

/-! ## Moves that pass a change by -/

/-- A change of the solution makes no difference to moves of a kind, and stays. The undo moves are
of that kind. -/
structure PassBy (good : Move S → Prop) (f : S → S) (step : Move S → S → Applied S) : Prop where
  same : ∀ m, good m → ∀ s, step m (f s) = (step m s).mapSolution f
  undo : ∀ m, good m → ∀ s u, (step m s).result = .ok u → good u

namespace PassBy

variable {good : Move S → Prop} {f : S → S} {step : Move S → S → Applied S}

theorem rollBack_eq (by_ : PassBy good f step) (of_undos : ∀ m ∈ undos, good m) (s : S) :
    rollBack step undos (f s) = (f (rollBack step undos s).1, (rollBack step undos s).2) := by
  induction undos generalizing s with
  | nil => rfl
  | cons undo rest ih =>
    rw [rollBack, rollBack, by_.same undo (of_undos undo (by simp))]
    dsimp only [Applied.mapSolution]
    rw [ih fun m member => of_undos m (by simp [member])]

theorem applyParts_eq (by_ : PassBy good f step) (of_parts : ∀ m ∈ parts, good m)
    (of_undos : ∀ m ∈ undos, good m) (s : S) :
    applyParts step parts undos (f s) = (applyParts step parts undos s).mapSolution f := by
  induction parts generalizing undos s with
  | nil => rfl
  | cons part rest ih =>
    have first := of_parts part (by simp)
    have same := by_.same part first s
    cases applied : (step part s).result with
    | error e =>
      have applied' : (step part (f s)).result = .error e := same ▸ applied
      rw [applyParts_cons_of_error applied, applyParts_cons_of_error applied', same]
      dsimp only [Applied.mapSolution]
      rw [by_.rollBack_eq of_undos]
    | ok undo =>
      have applied' : (step part (f s)).result = .ok undo := same ▸ applied
      have others := ih (fun m member => of_parts m (by simp [member]))
        (List.forall_mem_cons.2 ⟨by_.undo part first s undo applied, of_undos⟩)
      rw [applyParts_cons_of_ok applied, applyParts_cons_of_ok applied', same]
      dsimp only [Applied.mapSolution]
      rw [others]
      rfl

end PassBy

section Score

variable {p : Problem S sh} {vars : Variables S} (blind : vars.Blind p) (x : Option (Score sh))
include blind

theorem writeLinks_withScore {v : ChainedVariable S} (member : v ∈ vars.chained)
    (links : List LinkChange) (s : S) :
    writeLinks v links (p.withScore s x) =
      (p.withScore (writeLinks v links s).1 x, (writeLinks v links s).2) := by
  induction links generalizing s with
  | nil => rfl
  | cons link rest ih =>
    rw [writeLinks, writeLinks, blind.graph v member]
    dsimp only
    split
    · rfl
    · rw [blind.withGraph v member, ih]

theorem relocate_withScore {v : ChainedVariable S} (member : v ∈ vars.chained) (run : SubChain)
    (target : Option Handle) (reversing : Bool) (back : Option Handle → Move S) (s : S) :
    relocate v run target reversing back (p.withScore s x) =
      (relocate v run target reversing back s).mapSolution fun s => p.withScore s x := by
  rw [relocate, relocate, blind.graph v member]
  split
  · rfl
  · rw [writeLinks_withScore blind x member]
    rfl

theorem withScore_of_depth (simple : m.depth = 0) (own : m.Over vars) (s : S) :
    applyWithin n m (p.withScore s x) =
      (applyWithin n m s).mapSolution fun s => p.withScore s x := by
  cases own with
  | @change v e target member =>
    rw [applyWithin_change, applyWithin_change, blind.get v member, blind.set v member]
    split <;> rfl
  | chainedChange e target member =>
    rw [applyWithin_chainedChange, applyWithin_chainedChange, relocate_withScore blind x member]
  | changePart run target member =>
    rw [applyWithin_changePart, applyWithin_changePart, relocate_withScore blind x member]
  | reverseChangePart run target member =>
    rw [applyWithin_reverseChangePart, applyWithin_reverseChangePart, relocate_withScore blind x member]
  | composite all => cases simple

omit blind in
theorem over_undo_of_depth (simple : m.depth = 0) (own : m.Over vars)
    (applied : (applyWithin n m s).result = .ok undo) : undo.Over vars := by
  cases own with
  | change target member ranges =>
    rw [applyWithin_change] at applied
    split at applied <;> exact Except.ok.inj applied ▸ .change _ member ranges
  | chainedChange e target member =>
    rw [applyWithin_chainedChange] at applied
    obtain ⟨old, rfl⟩ := relocate_eq_ok applied
    exact .chainedChange _ _ member
  | changePart run target member =>
    rw [applyWithin_changePart] at applied
    obtain ⟨old, rfl⟩ := relocate_eq_ok applied
    exact .changePart _ _ member
  | reverseChangePart run target member =>
    rw [applyWithin_reverseChangePart] at applied
    obtain ⟨old, rfl⟩ := relocate_eq_ok applied
    exact .reverseChangePart _ _ member
  | composite all => cases simple

/-- The bound is on the nesting. -/
theorem passBy_withScore (n : Nat) :
    PassBy (Over vars) (fun s => p.withScore s x) (applyWithin n) := by
  induction n with
  | zero =>
    refine ⟨fun m own s => ?_, fun m own s u applied => ?_⟩
    · rcases depth_eq_zero_or m with simple | ⟨parts, rfl, -⟩
      · exact withScore_of_depth blind x simple own s
      · rfl
    · rcases depth_eq_zero_or m with simple | ⟨parts, rfl, -⟩
      · exact over_undo_of_depth simple own applied
      · exact Except.ok.inj applied ▸ .composite (List.forall_mem_nil _)
  | succ n ih =>
    refine ⟨fun m own s => ?_, fun m own s u applied => ?_⟩
    · rcases depth_eq_zero_or m with simple | ⟨parts, rfl, -⟩
      · exact withScore_of_depth blind x simple own s
      · cases own with
        | composite all =>
          rw [applyWithin_composite, applyWithin_composite,
            ih.applyParts_eq all (List.forall_mem_nil _)]
    · rcases depth_eq_zero_or m with simple | ⟨parts, rfl, -⟩
      · exact over_undo_of_depth simple own applied
      · cases own with
        | composite all =>
          rw [applyWithin_composite] at applied
          have agree : Agree (Over vars) (applyWithin n) (applyWithin n) := ⟨fun _ _ _ => rfl, ih.undo⟩
          obtain ⟨us, rfl, parts⟩ := agree.undo_applyParts all (List.forall_mem_nil _) applied
          exact .composite parts

/-- What a move does and whether it is refused does not depend on the stored score, which stays. -/
theorem apply_withScore (own : m.Over vars) (s : S) :
    m.apply (p.withScore s x) = (m.apply s).mapSolution fun s => p.withScore s x :=
  (passBy_withScore blind x m.depth).same m own s

theorem over_undo (own : m.Over vars) (applied : (m.apply s).result = .ok undo) : undo.Over vars :=
  (passBy_withScore blind none m.depth).undo m own s undo applied

theorem relocates_withScore {v : ChainedVariable S} (member : v ∈ vars.chained) (run : SubChain)
    (target : Option Handle) (reversing : Bool) (s : S) :
    relocates v (p.withScore s x) run target reversing = relocates v s run target reversing := by
  rw [relocates, relocates, blind.graph v member]

theorem isDoable_withScore (own : m.Over vars) (s : S) :
    m.isDoable (p.withScore s x) = m.isDoable s := by
  induction m using Move.induction with
  | change v e target =>
    cases own with
    | change _ member => rw [isDoable, isDoable, blind.get v member]
  | chainedChange v e target =>
    cases own with
    | chainedChange _ _ member => rw [isDoable, isDoable, relocates_withScore blind x member]
  | changePart v run target =>
    cases own with
    | changePart _ _ member => rw [isDoable, isDoable, relocates_withScore blind x member]
  | reverseChangePart v run target =>
    cases own with
    | reverseChangePart _ _ member => rw [isDoable, isDoable, relocates_withScore blind x member]
  | composite parts ih =>
    cases own with
    | composite all =>
      rw [isDoable, isDoable, isAnyDoable_eq_any, isAnyDoable_eq_any]
      rw [Bool.eq_iff_iff, List.any_eq_true, List.any_eq_true]
      exact exists_congr fun part => and_congr_right fun member => by
        rw [ih part member (all part member)]

end Score

/-! ## Moves that nobody is told of -/

theorem links_of_silent {v : ChainedVariable S} {links : List LinkChange}
    (silent : (writeLinks v links s).2.1 = []) : links = [] := by
  cases links with
  | nil => rfl
  | cons link rest =>
    rw [writeLinks] at silent
    dsimp only at silent
    split at silent <;> cases silent

theorem solution_of_silent_relocate {v : ChainedVariable S} {run : SubChain} {target : Option Handle}
    {reversing : Bool} {back : Option Handle → Move S}
    (silent : (relocate v run target reversing back s).notifications = []) :
    (relocate v run target reversing back s).solution = s := by
  unfold relocate at silent ⊢
  split
  · rfl
  · rename_i plan planned
    rw [planned] at silent
    change (writeLinks v plan.links s).1 = s
    rw [links_of_silent silent]
    rfl

section Parts

variable {step : Move S → S → Applied S}
variable (each : ∀ m s, (step m s).notifications = [] → (step m s).solution = s)
include each

theorem solution_of_silent_rollBack (silent : (rollBack step undos s).2 = []) :
    (rollBack step undos s).1 = s := by
  induction undos generalizing s with
  | nil => rfl
  | cons undo rest ih =>
    rw [rollBack] at silent ⊢
    obtain ⟨first, others⟩ := List.append_eq_nil_iff.1 silent
    exact (ih others).trans (each undo s first)

theorem solution_of_silent_parts (silent : (applyParts step parts undos s).notifications = []) :
    (applyParts step parts undos s).solution = s := by
  induction parts generalizing undos s with
  | nil => rfl
  | cons part rest ih =>
    cases applied : (step part s).result with
    | error e =>
      rw [applyParts_cons_of_error applied] at silent ⊢
      obtain ⟨first, others⟩ := List.append_eq_nil_iff.1 silent
      exact (solution_of_silent_rollBack each others).trans (each part s first)
    | ok undo =>
      rw [applyParts_cons_of_ok applied] at silent ⊢
      obtain ⟨first, others⟩ := List.append_eq_nil_iff.1 silent
      exact (ih others).trans (each part s first)

end Parts

theorem solution_of_silent_depth (simple : m.depth = 0)
    (silent : (applyWithin n m s).notifications = []) : (applyWithin n m s).solution = s := by
  cases m with
  | change v e target =>
    rw [applyWithin_change] at silent ⊢
    split at silent
    · rw [if_pos ‹_›]
    · cases silent
  | composite parts => cases simple
  | chainedChange v e target =>
    rw [applyWithin_chainedChange] at silent ⊢
    exact solution_of_silent_relocate silent
  | changePart v run target =>
    rw [applyWithin_changePart] at silent ⊢
    exact solution_of_silent_relocate silent
  | reverseChangePart v run target =>
    rw [applyWithin_reverseChangePart] at silent ⊢
    exact solution_of_silent_relocate silent

theorem solution_of_silent_within (n : Nat) (m : Move S) (s : S)
    (silent : (applyWithin n m s).notifications = []) : (applyWithin n m s).solution = s := by
  induction n generalizing m s with
  | zero =>
    rcases depth_eq_zero_or m with simple | ⟨parts, rfl, -⟩
    · exact solution_of_silent_depth simple silent
    · rfl
  | succ n ih =>
    rcases depth_eq_zero_or m with simple | ⟨parts, rfl, -⟩
    · exact solution_of_silent_depth simple silent
    · rw [applyWithin_composite] at silent ⊢
      exact solution_of_silent_parts ih silent

/-- Where no watcher is told of anything, nothing was changed. -/
theorem solution_of_silent (silent : (m.apply s).notifications = []) : (m.apply s).solution = s :=
  solution_of_silent_within m.depth m s silent

end Move

end PlanSearch
