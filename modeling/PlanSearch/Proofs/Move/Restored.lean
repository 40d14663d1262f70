import PlanSearch.Proofs.Chain.Frayed
import PlanSearch.Proofs.Move.Doable

/-!
# Taking back whatever was applied

A composite may take a run of several entities out of all chains. Then its undo move may be refused,
and on the way it may meet a run outside the chains that is no longer linked up as it was. What is
lost there is never needed again: as long as the variables are separate parts of the solution, an
undo move that is accepted to the end restores the solution, whatever the move was.
-/

namespace PlanSearch

namespace Variables

variable {S : Type}

/-- One variable is written. -/
inductive Writes (vars : Variables S) (s : S) : S → Prop
  | value {v : PlainVariable S} (member : v ∈ vars.plain) (e : Nat) (x : Option Nat) :
    Writes vars s (v.set s e x)
  | graph {v : ChainedVariable S} (member : v ∈ vars.chained) (g : ChainGraph) :
    Writes vars s (v.withGraph s g)

/-- The variables are separate parts of a solution: to write one changes what no other one holds,
and to write them changes nothing else, so that solutions of which one was made from the other by
writing are the same if they hold the same. -/
structure Separate (vars : Variables S) : Prop extends vars.Apart where
  graph_set : ∀ v ∈ vars.plain, ∀ c ∈ vars.chained, ∀ s e x, c.graph (v.set s e x) = c.graph s
  graph_withGraph : ∀ v ∈ vars.chained, ∀ c ∈ vars.chained, ∀ s g,
    c ≠ v → c.graph (v.withGraph s g) = c.graph s
  determined : ∀ s t, Relation.ReflTransGen vars.Writes s t →
    (∀ v ∈ vars.plain, ∀ e, v.get t e = v.get s e) →
    (∀ c ∈ vars.chained, c.graph t = c.graph s) → t = s

/-- The graphs have no cycles and an exact index, whether or not all their links are in chains. -/
def Tidy (vars : Variables S) (s : S) : Prop :=
  ∀ c ∈ vars.chained, (c.graph s).Linked ∧ (c.graph s).Rooted

theorem Valid.tidy {vars : Variables S} {s : S} (valid : vars.Valid s) : vars.Tidy s := by
  intro c member
  have law := ChainGraph.validate_eq_ok_iff.1 (valid c member)
  exact ⟨law.linked, law.rooted⟩

/-- A solution that was made from another one by writing and is the same but for frayed graphs. -/
structure Frayed (vars : Variables S) (s u : S) : Prop where
  written : Relation.ReflTransGen vars.Writes s u
  value : ∀ v ∈ vars.plain, ∀ e, v.get u e = v.get s e
  graph : ∀ c ∈ vars.chained, (c.graph s).Frayed (c.graph u)

theorem Tidy.frayed_self {vars : Variables S} {s : S} (tidy : vars.Tidy s) : vars.Frayed s s :=
  ⟨.refl, fun _ _ _ => rfl, fun c member => (tidy c member).1.frayed_self⟩

/-- Of a solution with valid chains nothing can be frayed. -/
theorem Separate.eq_of_frayed {vars : Variables S} {s u : S} (separate : vars.Separate)
    (valid : vars.Valid s) (frayed : vars.Frayed s u) : u = s := by
  refine separate.determined s u frayed.written frayed.value fun c member => ?_
  exact (ChainGraph.validate_eq_ok_iff.1 (valid c member)).eq_of_frayed (frayed.graph c member)

/-! ## What one write leaves -/

section OneWrite

variable {vars : Variables S} {s u : S} (separate : vars.Separate)
include separate

theorem Separate.tidy_set {v : PlainVariable S} (member : v ∈ vars.plain) (tidy : vars.Tidy s)
    (e : Nat) (x : Option Nat) : vars.Tidy (v.set s e x) := by
  intro c known
  rw [separate.graph_set v member c known]
  exact tidy c known

theorem Separate.tidy_withGraph {v : ChainedVariable S} (law : v.Lawful) (member : v ∈ vars.chained)
    (tidy : vars.Tidy s) {g : ChainGraph} (linked : g.Linked) (rooted : g.Rooted) :
    vars.Tidy (v.withGraph s g) := by
  intro c known
  by_cases self : c = v
  · rw [self, law.graph_withGraph]
    exact ⟨linked, rooted⟩
  · rw [separate.graph_withGraph v member c known s g self]
    exact tidy c known

/-- The old value, written back, is all that was missing. -/
theorem Separate.frayed_set {v : PlainVariable S} {e : Nat} (law : v.Lawful (vars.ranges v))
    (member : v ∈ vars.plain) (ranges : vars.ranges v e) {x : Option Nat}
    (frayed : vars.Frayed (v.set s e x) u) : vars.Frayed s (v.set u e (v.get s e)) := by
  have step : Relation.ReflTransGen vars.Writes s (v.set s e x) := .single (.value member e x)
  refine ⟨?_, fun w known f => ?_, fun c known => ?_⟩
  · exact (step.trans frayed.written).tail (.value member e _)
  · by_cases self : w = v ∧ f = e
    · rw [self.1, self.2]
      exact law.get_set u e _ ranges
    · have other : w = v → f ≠ e := not_and.1 self
      have kept := separate.set v member w known s e x f other
      exact (separate.set v member w known u e _ f other).trans
        ((frayed.value w known f).trans kept)
  · have kept := frayed.graph c known
    rw [separate.graph_set v member c known] at kept
    rwa [separate.graph_set v member c known]

/-- A graph that is frayed against the old one may be written back. -/
theorem Separate.frayed_withGraph {v : ChainedVariable S} (law : v.Lawful)
    (member : v ∈ vars.chained) {g g' : ChainGraph} (frayed : vars.Frayed (v.withGraph s g') u)
    (back : (v.graph s).Frayed g) : vars.Frayed s (v.withGraph u g) := by
  have step : Relation.ReflTransGen vars.Writes s (v.withGraph s g') := .single (.graph member g')
  refine ⟨?_, fun w known e => ?_, fun c known => ?_⟩
  · exact (step.trans frayed.written).tail (.graph member g)
  · have kept := separate.withGraph v member w known s g' e
    exact (separate.withGraph v member w known u g e).trans ((frayed.value w known e).trans kept)
  · by_cases self : c = v
    · rwa [self, law.graph_withGraph]
    · have kept := frayed.graph c known
      rw [separate.graph_withGraph v member c known s g' self] at kept
      rwa [separate.graph_withGraph v member c known u g self]

end OneWrite

end Variables

namespace Move

variable {S : Type} {vars : Variables S} {v : ChainedVariable S} {m undo : Move S}
variable {parts undos : List (Move S)} {run : SubChain} {target : Option Handle}
variable {reversing : Bool} {s t : S}

/-- The application of a move leaves tidy graphs, and from every solution that is frayed against its
result the undo move, if it is accepted, leads to one that is frayed against the solution before. -/
structure Retraces (vars : Variables S) (s t : S) (back : S → Except ChainError S) : Prop where
  tidy : vars.Tidy t
  written : Relation.ReflTransGen vars.Writes s t
  frayed : ∀ u w, vars.Frayed t u → back u = .ok w → vars.Frayed s w

theorem outcome_eq_ok {a : Applied S} : outcome a = .ok t ↔
    ∃ undo, a.result = .ok undo ∧ a.solution = t := by
  unfold outcome
  cases a.result with
  | error e => simp [Except.map]
  | ok undo => simp [Except.map]

theorem retraces_change (separate : vars.Separate) {v : PlainVariable S} {e : Nat}
    (law : v.Lawful (vars.ranges v)) (member : v ∈ vars.plain) (ranges : vars.ranges v e)
    (x : Option Nat) (tidy : vars.Tidy s)
    (applied : ((Move.change v e x).apply s).result = .ok undo) :
    Retraces vars s ((Move.change v e x).apply s).solution fun u => outcome (undo.apply u) := by
  rw [apply_change] at applied ⊢
  split at applied
  · rename_i same
    obtain rfl := Except.ok.inj applied
    rw [if_pos same]
    refine ⟨tidy, .refl, fun u w frayed undone => ?_⟩
    obtain ⟨_, -, rfl⟩ := outcome_eq_ok.1 undone
    rwa [apply_change, if_pos (frayed.value v member e)]
  · rename_i other
    obtain rfl := Except.ok.inj applied
    rw [if_neg other]
    refine ⟨separate.tidy_set member tidy e x, .single (.value member e x), ?_⟩
    intro u w frayed undone
    obtain ⟨_, -, rfl⟩ := outcome_eq_ok.1 undone
    have now : v.get u e = x := (frayed.value v member e).trans (law.get_set s e x ranges)
    rw [apply_change, now, if_neg (Ne.symm other)]
    exact separate.frayed_set law member ranges frayed

theorem retraces_relocate (separate : vars.Separate) (law : v.Lawful) (member : v ∈ vars.chained)
    (tidy : vars.Tidy s) {back again : Option Handle → Move S}
    (there : ∀ s, m.apply s = relocate v run target reversing back s)
    (opposite : ∀ old s, (back old).apply s =
      relocate v (run.oriented reversing) old reversing again s)
    (applied : (m.apply s).result = .ok undo) :
    Retraces vars s (m.apply s).solution fun u => outcome (undo.apply u) := by
  obtain ⟨linked, rooted⟩ := tidy v member
  cases planned : (v.graph s).planMove run target reversing with
  | error e =>
    rw [there, relocate_refused back planned] at applied
    cases applied
  | ok plan =>
    obtain ⟨-, -, g', written, -⟩ := rooted.acyclic.applyPlan linked planned
    obtain ⟨linked', rooted', restored⟩ := rooted.planMove_back linked planned written
    have forth := (there s).trans (relocate_eq law back planned written)
    rw [forth] at applied ⊢
    obtain rfl := Except.ok.inj applied
    refine ⟨separate.tidy_withGraph law member tidy linked' rooted', .single (.graph member g'), ?_⟩
    intro u w frayed undone
    obtain ⟨_, accepted, rfl⟩ := outcome_eq_ok.1 undone
    rw [opposite] at accepted ⊢
    cases planned' : (v.graph u).planMove (run.oriented reversing) plan.oldPredecessor reversing with
    | error e =>
      rw [relocate_refused again planned'] at accepted
      cases accepted
    | ok plan' =>
      have frayedGraph := frayed.graph v member
      rw [law.graph_withGraph s g'] at frayedGraph
      obtain ⟨g, written', frayed'⟩ := restored _ frayedGraph plan' planned'
      rw [relocate_eq law again planned' written']
      exact separate.frayed_withGraph law member frayed frayed'

/-- A composite leads where its parts lead one after the other. -/
theorem outcome_applyParts_eq_through (parts undos : List (Move S)) (s : S) :
    outcome (applyParts apply parts undos s) = through parts s := by
  induction parts generalizing undos s with
  | nil => rfl
  | cons part rest ih =>
    rw [through]
    cases first : (part.apply s).result with
    | error e =>
      rw [applyParts_cons_of_error first]
      rfl
    | ok undo =>
      rw [applyParts_cons_of_ok first]
      exact ih (undo :: undos) (part.apply s).solution

/-- The undo moves of the parts retrace the parts in opposite order. -/
theorem retraces_parts
    (each : ∀ part ∈ parts, ∀ s undo, vars.Tidy s → (part.apply s).result = .ok undo →
      Retraces vars s (part.apply s).solution fun u => outcome (undo.apply u))
    (tidy : vars.Tidy s) (applied : (applyParts apply parts undos s).result = .ok undo) :
    ∃ us, undo = .composite (us ++ undos) ∧
      Retraces vars s (applyParts apply parts undos s).solution (through us) := by
  induction parts generalizing undos s with
  | nil =>
    refine ⟨[], (Except.ok.inj applied).symm, tidy, .refl, fun u w frayed undone => ?_⟩
    rwa [← Except.ok.inj undone]
  | cons part rest ih =>
    cases first : (part.apply s).result with
    | error e =>
      rw [applyParts_cons_of_error first] at applied
      cases applied
    | ok back =>
      have head := each part (by simp) s back tidy first
      rw [applyParts_cons_of_ok first] at applied ⊢
      obtain ⟨us, rfl, others⟩ :=
        ih (fun m member => each m (by simp [member])) head.tidy applied
      refine ⟨us ++ [back], by simp, others.tidy, head.written.trans others.written, ?_⟩
      intro u w frayed undone
      rw [through_append] at undone
      cases middle : through us u with
      | error e =>
        rw [middle] at undone
        cases undone
      | ok between =>
        rw [middle] at undone
        have last : outcome (back.apply between) = .ok w := by
          rw [← through_singleton]
          exact undone
        exact head.frayed between w (others.frayed u between frayed middle) last

theorem retraces (lawful : vars.Lawful) (separate : vars.Separate) (own : m.Over vars)
    (tidy : vars.Tidy s) (applied : (m.apply s).result = .ok undo) :
    Retraces vars s (m.apply s).solution fun u => outcome (undo.apply u) := by
  induction m using Move.induction generalizing s undo with
  | change v e x =>
    cases own with
    | change _ member ranges =>
      exact retraces_change separate (lawful.plain v member) member ranges x tidy applied
  | chainedChange v e target =>
    cases own with
    | chainedChange _ _ member =>
      exact retraces_relocate separate (lawful.chained v member) member tidy
        (apply_chainedChange v e target) (apply_chainedChange v e) applied
  | changePart v run target =>
    cases own with
    | changePart _ _ member =>
      exact retraces_relocate separate (lawful.chained v member) member tidy
        (apply_changePart v run target) (apply_changePart v run) applied
  | reverseChangePart v run target =>
    cases own with
    | reverseChangePart _ _ member =>
      exact retraces_relocate separate (lawful.chained v member) member tidy
        (apply_reverseChangePart v run target) (apply_reverseChangePart v run.reversed) applied
  | composite parts ih =>
    cases own with
    | composite all =>
      rw [apply_composite] at applied ⊢
      obtain ⟨us, rfl, parts⟩ := retraces_parts
        (fun part member s undo tidy applied => ih part member (all part member) tidy applied)
        tidy applied
      refine ⟨parts.tidy, parts.written, fun u w frayed undone => ?_⟩
      rw [apply_composite, outcome_applyParts_eq_through, List.append_nil] at undone
      exact parts.frayed u w frayed undone

/-- An undo move that is accepted restores the solution, if the move keeps runs together or if the
variables are separate. -/
theorem solution_of_undone (lawful : vars.Lawful) (own : m.Over vars)
    (either : m.KeepsRuns ∨ vars.Separate) (valid : vars.Valid s)
    (applied : (m.apply s).result = .ok undo)
    (undone : outcome (undo.apply (m.apply s).solution) = .ok t) : t = s := by
  rcases either with keeps | separate
  · obtain ⟨_, -, rfl⟩ := outcome_eq_ok.1 undone
    exact (reverts lawful own keeps valid applied).solution
  · have back := retraces lawful separate own valid.tidy applied
    exact separate.eq_of_frayed valid (back.frayed _ t back.tidy.frayed_self undone)

end Move

end PlanSearch
