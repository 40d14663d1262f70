import Mathlib.Data.List.Forall2
import PlanSearch.Acceptor.Forager
import PlanSearch.Proofs.Fault

/-!
# What acceptors forget

At the beginning of a phase an acceptor forgets all that it remembers, whatever it was told before.
It faults on nothing but numbers that are too large.
-/

namespace PlanSearch

variable {S : Type} {sh : Shape} {faults : Fault → Prop}

namespace Acceptor

/-- To prove something of all acceptors it may be assumed of the parts of a composite. -/
theorem induction {motive : Acceptor S sh → Prop} (hillClimbing : motive .hillClimbing)
    (entityTabu : ∀ t, motive (.entityTabu t)) (valueTabu : ∀ t, motive (.valueTabu t))
    (moveTabu : ∀ t, motive (.moveTabu t)) (undoMoveTabu : ∀ t, motive (.undoMoveTabu t))
    (annealing : ∀ a, motive (.annealing a)) (lateAcceptance : ∀ a, motive (.lateAcceptance a))
    (composite : ∀ parts, (∀ a ∈ parts, motive a) → motive (.composite parts)) : ∀ a, motive a
  | .hillClimbing => hillClimbing
  | .entityTabu t => entityTabu t
  | .valueTabu t => valueTabu t
  | .moveTabu t => moveTabu t
  | .undoMoveTabu t => undoMoveTabu t
  | .annealing a => annealing a
  | .lateAcceptance a => lateAcceptance a
  | .composite parts => composite parts fun a member =>
    have := List.sizeOf_lt_of_mem member
    induction hillClimbing entityTabu valueTabu moveTabu undoMoveTabu annealing lateAcceptance
      composite a
  termination_by a => sizeOf a

/-- From the beginning of a phase on the acceptors are the same. They anneal both or neither. -/
structure Renews (a b : Acceptor S sh) : Prop where
  begins : ∀ starting, a.phaseStarted starting = b.phaseStarted starting
  needsGradient : a.needsGradient = b.needsGradient

theorem Renews.refl (a : Acceptor S sh) : a.Renews a := ⟨fun _ => rfl, rfl⟩

theorem Renews.trans {a b c : Acceptor S sh} (first : a.Renews b) (second : b.Renews c) :
    a.Renews c :=
  ⟨fun starting => (first.begins starting).trans (second.begins starting),
    first.needsGradient.trans second.needsGradient⟩

theorem renews_composite {as bs : List (Acceptor S sh)} (each : List.Forall₂ Renews as bs) :
    (composite as).Renews (composite bs) := by
  refine ⟨fun starting => ?_, ?_⟩
  · have same : allPhaseStarted starting as = allPhaseStarted starting bs := by
      induction each with
      | nil => rfl
      | cons first _ ih => rw [allPhaseStarted, allPhaseStarted, first.begins, ih]
    rw [phaseStarted, phaseStarted, same]
  · rw [Acceptor.needsGradient, Acceptor.needsGradient]
    induction each with
    | nil => rfl
    | cons first _ ih => rw [doesAnyNeedGradient, doesAnyNeedGradient, first.needsGradient, ih]

theorem renews_of_map {u : Acceptor S sh → Acceptor S sh} {parts : List (Acceptor S sh)}
    (each : ∀ a ∈ parts, (u a).Renews a) : List.Forall₂ Renews (parts.map u) parts := by
  induction parts with
  | nil => exact .nil
  | cons a rest ih =>
    exact .cons (each a (by simp)) (ih fun b member => each b (by simp [member]))

theorem allStepStarted_eq (step : StepContext sh) (parts : List (Acceptor S sh)) :
    allStepStarted step parts = parts.map (stepStarted step) := by
  induction parts with
  | nil => rfl
  | cons a rest ih => rw [allStepStarted, ih, List.map_cons]

theorem allStepEnded_eq (made : Made S sh) (parts : List (Acceptor S sh)) :
    allStepEnded made parts = parts.map (stepEnded made) := by
  induction parts with
  | nil => rfl
  | cons a rest ih => rw [allStepEnded, ih, List.map_cons]

theorem allPhaseEnded_eq (parts : List (Acceptor S sh)) :
    allPhaseEnded parts = parts.map phaseEnded := by
  induction parts with
  | nil => rfl
  | cons a rest ih => rw [allPhaseEnded, ih, List.map_cons]

theorem renews_stepStarted (step : StepContext sh) (a : Acceptor S sh) :
    (a.stepStarted step).Renews a := by
  induction a using Acceptor.induction with
  | composite parts ih =>
    rw [stepStarted, allStepStarted_eq]
    exact renews_composite (renews_of_map ih)
  | _ => exact ⟨fun _ => rfl, rfl⟩

theorem renews_stepEnded (made : Made S sh) (a : Acceptor S sh) :
    (a.stepEnded made).Renews a := by
  induction a using Acceptor.induction with
  | composite parts ih =>
    rw [stepEnded, allStepEnded_eq]
    exact renews_composite (renews_of_map ih)
  | lateAcceptance a =>
    refine ⟨fun starting => ?_, rfl⟩
    rw [stepEnded]
    cases made.score with
    | none => rfl
    | some score =>
      simp only [phaseStarted, LateAcceptance.stepEnded]
      split <;> rfl
  | _ => exact ⟨fun _ => rfl, rfl⟩

theorem allPhaseStarted_eq (starting : Score sh) (parts : List (Acceptor S sh)) :
    allPhaseStarted starting parts = parts.mapM (phaseStarted starting) := by
  induction parts with
  | nil => rfl
  | cons a rest ih => rw [allPhaseStarted, ih, List.mapM_cons]

theorem renews_of_forall₂ {starting : Score sh} {parts parts' : List (Acceptor S sh)}
    (each : ∀ a ∈ parts, ∀ a', a.phaseStarted starting = .ok a' → a'.Renews a)
    (began : List.Forall₂ (fun a a' => a.phaseStarted starting = .ok a') parts parts') :
    List.Forall₂ Renews parts' parts := by
  induction began with
  | nil => exact .nil
  | cons first _ ih =>
    exact .cons (each _ (by simp) _ first) (ih fun b member => each b (by simp [member]))

theorem renews_of_phaseStarted {starting : Score sh} {a a' : Acceptor S sh}
    (began : a.phaseStarted starting = .ok a') : a'.Renews a := by
  induction a using Acceptor.induction generalizing a' with
  | composite parts ih =>
    rw [phaseStarted, allPhaseStarted_eq] at began
    cases all : parts.mapM (phaseStarted starting) with
    | error e =>
      rw [all] at began
      cases began
    | ok parts' =>
      rw [all] at began
      obtain rfl := Except.ok.inj began
      exact renews_composite
        (renews_of_forall₂ (fun a member _ => ih a member) (mapM_eq_ok_iff.1 all))
  | lateAcceptance a =>
    rw [phaseStarted, LateAcceptance.phaseStarted] at began
    split at began
    · cases began
    · obtain rfl := Except.ok.inj began
      exact ⟨fun _ => rfl, rfl⟩
  | _ =>
    obtain rfl := Except.ok.inj began
    exact ⟨fun _ => rfl, rfl⟩

theorem renews_phaseEnded (a : Acceptor S sh) : a.phaseEnded.Renews a := by
  induction a using Acceptor.induction with
  | composite parts ih =>
    rw [phaseEnded, allPhaseEnded_eq]
    exact renews_composite (renews_of_map ih)
  | _ => exact ⟨fun _ => rfl, rfl⟩

/-! ## Faults -/

theorem overflows_phaseStarted (starting : Score sh) (a : Acceptor S sh) :
    Overflows (a.phaseStarted starting) := by
  induction a using Acceptor.induction with
  | composite parts ih =>
    rw [phaseStarted, allPhaseStarted_eq]
    exact .map _ (.mapM ih)
  | lateAcceptance a =>
    rw [phaseStarted, LateAcceptance.phaseStarted]
    split
    · exact .map _ (.error rfl)
    · exact .map _ (.ok _)
  | _ => exact .ok _

mutual

/-- The scores that late acceptance looks back on fit the memory of a machine. -/
def FitsMemory : Acceptor S sh → Prop
  | lateAcceptance a => a.size * sh.levelCount * 8 < 0x8000000000000000
  | composite parts => AllFitMemory parts
  | hillClimbing | entityTabu _ | valueTabu _ | moveTabu _ | undoMoveTabu _ | annealing _ => True

/-- What each of several acceptors looks back on fits the memory of a machine. -/
def AllFitMemory : List (Acceptor S sh) → Prop
  | [] => True
  | a :: rest => FitsMemory a ∧ AllFitMemory rest

end

theorem fitsMemory_combine {parts : List (Acceptor S sh)} (each : ∀ a ∈ parts, a.FitsMemory) :
    (combine parts).FitsMemory := by
  have all : AllFitMemory parts := by
    induction parts with
    | nil => trivial
    | cons a rest ih =>
      obtain ⟨first, others⟩ := List.forall_mem_cons.1 each
      exact ⟨first, ih others⟩
  unfold combine
  split
  · trivial
  · exact all.1
  · exact all

/-- Nothing but a lack of memory keeps an acceptor from beginning a phase. -/
theorem FitsMemory.breaks_phaseStarted {a : Acceptor S sh} (fits : a.FitsMemory)
    (starting : Score sh) : Breaks faults (a.phaseStarted starting) := by
  induction a using Acceptor.induction with
  | composite parts ih =>
    rw [phaseStarted]
    rw [FitsMemory] at fits
    refine .map _ ?_
    induction parts with
    | nil => exact .ok _
    | cons a rest others =>
      refine (ih a (List.mem_cons_self ..) fits.1).bind fun _ _ => ?_
      exact (others (fun b member => ih b (List.mem_cons_of_mem _ member)) fits.2).bind
        fun _ _ => .ok _
  | lateAcceptance a =>
    rw [FitsMemory] at fits
    rw [phaseStarted, LateAcceptance.phaseStarted, if_neg (Nat.not_le.2 fits)]
    exact .ok _
  | _ => exact .ok _

/-- Nothing but the difference to a better score keeps an acceptor from deciding, and only if it
anneals. -/
theorem breaks_accepts {a : Acceptor S sh} {score : Score sh} {step : StepContext sh}
    (differs : a.needsGradient = true → score < step.lastStep →
      Breaks faults (step.lastStep.sub score)) (m : Move S)
    (g : Random.Generator) : Breaks faults (a.accepts m score step g) := by
  induction a using Acceptor.induction generalizing g with
  | composite parts ih =>
    rw [accepts]
    rw [Acceptor.needsGradient] at differs
    induction parts generalizing g with
    | nil => exact .ok _
    | cons a rest others =>
      rw [doesAnyNeedGradient] at differs
      have first := ih a (List.mem_cons_self ..) (fun own => differs (by rw [own]; rfl)) g
      have others := others (fun b member => ih b (List.mem_cons_of_mem _ member))
        fun own => differs (by rw [own, Bool.or_true])
      rw [doAllAccept]
      split
      · exact .error (first _ ‹_›)
      · exact others _
      · exact .ok _
  | annealing a =>
    rw [accepts, Annealing.accepts]
    split
    · rename_i worse
      rw [Annealing.chance, if_pos worse]
      exact .map _ ((differs rfl worse).bind fun _ _ => .ok _)
    · exact .ok _
  | _ => exact .ok _

theorem overflows_accepts (m : Move S) (score : Score sh) (step : StepContext sh)
    (g : Random.Generator) (a : Acceptor S sh) : Overflows (a.accepts m score step g) :=
  breaks_accepts (fun _ _ => Score.overflows_sub _ _) m g

end Acceptor

namespace Forager

variable (f : Forager S sh) (m : Move S) (score : Score sh) (step : StepContext sh)

/-- A forager keeps the best move that it has, or takes the new one. -/
theorem best_add : (f.add m score step).best = some (m, score) ∨ (f.add m score step).best = f.best := by
  simp only [add]
  exact ite_eq_or_eq ..

end Forager

end PlanSearch
