import PlanSearch.Proofs.Assembly.Building
import PlanSearch.Proofs.Config.Valid

/-!
# What is built is fit

Time limits that are too long together and distributions that are unfit pass the check of settings,
but no solver is built from them.
-/

namespace PlanSearch.Assembly

open Config

/-! ## Terminations -/

section Terminations

variable {sh : Shape}

mutual

theorem not_overlong_of_isEmpty : ∀ c : TerminationSettings, c.isEmpty = .ok true → ¬c.Overlong
  | .node limits children, empty, long => by
    rw [TerminationSettings.isEmpty] at empty
    split at empty
    · cases empty
    · split at empty
      · cases long with
        | own long => simp_all
        | nested member long => exact not_overlong_of_areEmpty children empty _ member long
      · cases empty

theorem not_overlong_of_areEmpty : ∀ cs : List TerminationSettings,
    TerminationSettings.areEmpty cs = .ok true → ∀ c ∈ cs, ¬c.Overlong
  | [], _ => by simp
  | c :: rest, empty => by
    rw [TerminationSettings.areEmpty] at empty
    split at empty
    · exact List.forall_mem_cons.2
        ⟨not_overlong_of_isEmpty c ‹_›, not_overlong_of_areEmpty rest empty⟩
    · rename_i full
      exact absurd empty (full · )

end

theorem time_ne_of_ownCriteria {limits : Limits} {own : List (Termination sh)}
    (made : ownCriteria limits = .ok own) : limits.time ≠ .error .overflow := by
  intro long
  unfold ownCriteria at made
  rw [long] at made
  cases made

mutual

theorem not_overlong_of_joinCriteria : ∀ (c : TerminationSettings) {t : Termination sh},
    joinCriteria c = .ok t → ¬c.Overlong
  | .node limits children, t, made, long => by
    rw [joinCriteria] at made
    split at made
    · cases made
    · rename_i own
      split at made
      · cases made
      · rename_i nested
        cases long with
        | own long => exact time_ne_of_ownCriteria own long
        | nested member long => exact not_overlong_of_nestedCriteria children nested _ member long

theorem not_overlong_of_nestedCriteria : ∀ (cs : List TerminationSettings)
    {ts : List (Termination sh)}, nestedCriteria cs = .ok ts → ∀ c ∈ cs, ¬c.Overlong
  | [], _, _ => by simp
  | c :: rest, ts, made => by
    rw [nestedCriteria] at made
    split at made
    · cases made
    · exact List.forall_mem_cons.2
        ⟨not_overlong_of_isEmpty c ‹_›, not_overlong_of_nestedCriteria rest made⟩
    · split at made
      · cases made
      · rename_i first
        split at made
        · cases made
        · exact List.forall_mem_cons.2
            ⟨not_overlong_of_joinCriteria c first, not_overlong_of_nestedCriteria rest ‹_›⟩

end

theorem not_overlong_of_termination {c : TerminationSettings} {t : Option (Termination sh)}
    (made : termination c = .ok t) : ¬c.Overlong := by
  obtain ⟨_, -, made⟩ := bind_eq_ok.1 made
  obtain ⟨empty, known, made⟩ := bind_eq_ok.1 made
  cases empty with
  | true => exact not_overlong_of_isEmpty c (mapError_eq_ok.1 known)
  | false =>
    obtain ⟨t, joined, -⟩ := bind_eq_ok.1 made
    exact not_overlong_of_joinCriteria c joined

theorem not_overlong_of_terminationIfAny {c : Option TerminationSettings}
    {t : Option (Termination sh)} (made : terminationIfAny c = .ok t) : ∀ s ∈ c, ¬s.Overlong := by
  rintro s rfl
  exact not_overlong_of_termination made

end Terminations

/-! ## Selectors -/

section Selectors

variable {S C : Type} {r : Registry S} {rs rs' : Recorders}

theorem nearby_eq_none_of_isEmpty {c : SelectorSettings} (empty : c.given.isEmpty) :
    c.nearby = none := by
  unfold SelectorSettings.given at empty
  cases nearby : c.nearby with
  | none => rfl
  | some n => simp_all

theorem distribution_of_ranked [Candidate C] {listed : Selector Memory S C} {n : NearbySettings}
    {sel : Selector Memory S C} (built : ranked r listed n true rs = .ok (sel, rs')) :
    ∃ d, n.distribution = .ok d := by
  unfold ranked at built
  obtain ⟨recorder, _, -, built⟩ := Building.andThen_eq_ok.1 built
  obtain ⟨meter, _, -, built⟩ := Building.andThen_eq_ok.1 built
  obtain ⟨drawn, _, made, -⟩ := Building.andThen_eq_ok.1 built
  have made := (Building.ofSelector_eq_ok.1 made).1
  rw [if_pos rfl] at made
  cases described : n.distribution with
  | error e =>
    rw [described] at made
    cases made
  | ok d => exact ⟨d, rfl⟩

theorem not_unfit_of_leaf [Candidate C] {items : S → Array C} {c : SelectorSettings}
    {enclosing : SelectionOrder} {sel : Selector Memory S C}
    (built : leaf r items c enclosing rs = .ok (sel, rs')) : ∀ n ∈ c.nearby, ¬n.Unfit := by
  intro n nearby
  obtain ⟨_, _, passed, built⟩ := Building.andThen_eq_ok.1 built
  have checked : c.validate enclosing = .ok () := mapError_eq_ok.1 (Building.lift_eq_ok.1 passed).1
  cases own : c.mimic with
  | some id =>
    unfold SelectorSettings.validate at checked
    simp only [own] at checked
    split at checked
    · cases (nearby_eq_none_of_isEmpty ‹_›).symm.trans nearby
    · cases checked
  | none =>
    obtain ⟨-, ⟨-, checked⟩ | ⟨random, checked⟩⟩ :=
      (SelectorSettings.valid_of_validate checked own).nearby n nearby
    · exact (NearbySettings.valid_of_validate checked).not_unfit_of_listed
    · simp only [own, random] at built
      obtain ⟨base, _, based, -⟩ := Building.andThen_eq_ok.1 built
      simp only [Option.mem_def.1 nearby] at based
      obtain ⟨d, described⟩ := distribution_of_ranked based
      obtain ⟨family, one, -⟩ := (NearbySettings.valid_of_validate checked).family
      exact NearbySettings.not_unfit_of_distribution ⟨family, one⟩ described

theorem not_unfit_of_changeSelector {v : RegisteredVariable S}
    {entities values : SelectorSettings} {enclosing : SelectionOrder}
    {sel : Selector Memory S (Move S)}
    (built : changeSelector r v entities values enclosing rs = .ok (sel, rs')) :
    (∀ n ∈ entities.nearby, ¬n.Unfit) ∧ ∀ n ∈ values.nearby, ¬n.Unfit := by
  cases v with
  | plain v entityCount valueCount =>
    obtain ⟨es, _, vs, first, second, -⟩ := exists_of_changeSelector_plain built
    exact ⟨not_unfit_of_leaf first, not_unfit_of_leaf second⟩
  | chained v entityItems valueItems =>
    obtain ⟨es, _, vs, first, second, -⟩ := exists_of_changeSelector_chained built
    exact ⟨not_unfit_of_leaf first, not_unfit_of_leaf second⟩

mutual

theorem not_unfit_of_movesOf {enclosing : SelectionOrder} : ∀ (c : MoveSelectorSettings)
    {sel : Selector Memory S (Move S)} {rs rs' : Recorders},
    movesOf r enclosing c rs = .ok (sel, rs') → ¬c.Unfit
  | .change c, _, _, _, built, ⟨s, n, uses, nearby, unfit⟩ => by
    obtain ⟨v, _, -, built⟩ := Building.andThen_eq_ok.1 built
    obtain ⟨entities, values⟩ := not_unfit_of_changeSelector built
    cases uses with
    | entities given =>
      rw [given] at entities
      exact entities n nearby unfit
    | values given =>
      rw [given] at values
      exact values n nearby unfit
  | .subChainChange c, _, _, _, built, ⟨s, n, .targets given, nearby, unfit⟩ => by
    obtain ⟨v, _, _, runs, targets, -, -, made, -⟩ := exists_of_subChainSelector built
    rw [given] at made
    exact not_unfit_of_leaf made n nearby unfit
  | .union children, _, _, _, built, ⟨s, n, .nested member uses, unfit⟩ => by
    obtain ⟨sels, _, made, -⟩ := Building.andThen_eq_ok.1 built
    exact not_unfit_of_movesOfAll children made _ member ⟨s, n, uses, unfit⟩

theorem not_unfit_of_movesOfAll {enclosing : SelectionOrder} : ∀ (cs : List MoveSelectorSettings)
    {sels : List (Selector Memory S (Move S))} {rs rs' : Recorders},
    movesOfAll r enclosing cs rs = .ok (sels, rs') → ∀ c ∈ cs, ¬c.Unfit
  | [], _, _, _, _ => by simp
  | c :: rest, _, _, _, built => by
    obtain ⟨sel, _, first, built⟩ := Building.andThen_eq_ok.1 built
    obtain ⟨sels, _, others, -⟩ := Building.andThen_eq_ok.1 built
    exact List.forall_mem_cons.2
      ⟨not_unfit_of_movesOf c first, not_unfit_of_movesOfAll rest others⟩

end

end Selectors

/-! ## Solvers -/

section Solvers

variable {S : Type} {sh : Shape} {r : Registry S}

theorem fit_of_localSearch {whole : Option (Termination sh)} {c : LocalSearchSettings}
    {p : LocalSearch Memory S sh} (built : localSearch r whole c = .ok p) :
    (∀ t ∈ c.termination, ¬t.Overlong) ∧ ∀ m ∈ c.moveSelector, ¬m.Unfit := by
  obtain ⟨-, ends, selected, -⟩ := of_localSearch built
  refine ⟨not_overlong_of_terminationIfAny ends, fun m given => ?_⟩
  rw [Option.mem_def.1 given] at selected
  obtain ⟨⟨⟩, -⟩ | ⟨_, _, _, ⟨⟩, made⟩ := cases_of_moveSelector selected
  exact not_unfit_of_movesOf m made

theorem fit_of_phase {whole : Option (Termination sh)} {c : PhaseSettings}
    {p : Phase Memory S sh} (built : phase r whole c = .ok p) :
    (∀ t ∈ c.termination, ¬t.Overlong) ∧
      ∀ search, c = .localSearch search → ∀ m ∈ search.moveSelector, ¬m.Unfit := by
  cases c with
  | construction c =>
    obtain ⟨p, constructed, -⟩ := andThen_eq_ok.1 built
    obtain ⟨v, -, constructed⟩ := bind_eq_ok.1 constructed
    obtain ⟨t, own, -⟩ := bind_eq_ok.1 constructed
    exact ⟨not_overlong_of_terminationIfAny own, fun _ same => by cases same⟩
  | localSearch c =>
    obtain ⟨p, search, -⟩ := andThen_eq_ok.1 built
    obtain ⟨own, selected⟩ := fit_of_localSearch search
    exact ⟨own, fun _ same => PhaseSettings.localSearch.inj same ▸ selected⟩

/-- What the check misses is found when the solver is built. -/
theorem fit_of_solver {c : SolverSettings} {made : Solver Memory S sh}
    (built : solver r c = .ok made) : ¬c.Overlong ∧ ¬c.Unfit := by
  obtain ⟨ends, phases⟩ := of_solver built
  have fit : ∀ p ∈ c.phases, (∀ t ∈ p.termination, ¬t.Overlong) ∧
      ∀ search, p = .localSearch search → ∀ m ∈ search.moveSelector, ¬m.Unfit := by
    rcases phases with ⟨none, -⟩ | ⟨-, each⟩
    · rw [none]
      simp
    · intro p given
      obtain ⟨made, -, built⟩ := exists_mem_of_forall₂ each.flip p given
      exact fit_of_phase built
  constructor
  · rintro (⟨t, given, long⟩ | ⟨p, member, t, given, long⟩)
    · exact not_overlong_of_terminationIfAny ends t given long
    · exact (fit p member).1 t given long
  · rintro ⟨p, member, m, given, unfit⟩
    exact (fit _ member).2 p rfl m given unfit

end Solvers

end PlanSearch.Assembly
