import Mathlib.Logic.Function.Basic
import PlanSearch.Proofs.Chain.Inverse
import PlanSearch.Proofs.Move.Application

/-!
# Undo moves

An undo move keeps the run that was moved and what its head was placed after. Everything else is
worked out anew from the changed solution. For lawful variables and valid chains this takes a move
back exactly: the solution is restored, the brackets come in opposite order, and the undo move of
the undo move is the original one. A run of several entities that is taken out of all chains is the
exception, because it is left linked up outside of them.
-/

namespace PlanSearch

/-- The planning variables of a kind of solution. -/
structure Variables (S : Type) where
  plain : List (PlainVariable S)
  chained : List (ChainedVariable S)
  /-- The entities that a plain variable ranges over; all of them, unless it is kept in an array of
  some size. -/
  ranges : PlainVariable S → Nat → Prop

namespace Variables

variable {S : Type}

/-- All variables are lawful, and each is a part of the solution of its own at least so far that to
write one of them breaks the chains of no other. -/
structure Lawful (vars : Variables S) : Prop where
  plain : ∀ v ∈ vars.plain, v.Lawful (vars.ranges v)
  chained : ∀ v ∈ vars.chained, v.Lawful
  valid_set : ∀ v ∈ vars.plain, ∀ c ∈ vars.chained, ∀ s e x,
    (c.graph s).Valid → (c.graph (v.set s e x)).Valid
  valid_withGraph : ∀ v ∈ vars.chained, ∀ c ∈ vars.chained, ∀ s g,
    (c.graph s).Valid → g.Valid → (c.graph (v.withGraph s g)).Valid

/-- A plain and a chained variable are lawful together if the chains do not show what is set. -/
theorem Lawful.pair {v : PlainVariable S} {c : ChainedVariable S}
    {ranges : PlainVariable S → Nat → Prop} (plain : v.Lawful (ranges v)) (chained : c.Lawful)
    (apart : ∀ s e x, c.graph (v.set s e x) = c.graph s) : Lawful ⟨[v], [c], ranges⟩ where
  plain := List.forall_mem_singleton.2 plain
  chained := List.forall_mem_singleton.2 chained
  valid_set := by
    refine List.forall_mem_singleton.2 (List.forall_mem_singleton.2 fun s e x valid => ?_)
    rwa [apart]
  valid_withGraph := by
    refine List.forall_mem_singleton.2 (List.forall_mem_singleton.2 fun s g _ valid => ?_)
    rwa [chained.graph_withGraph]

/-- Every entity has a place of its own in the solution for every plain variable: it does not show
there when another one is written, or a graph. -/
structure Apart (vars : Variables S) : Prop where
  set : ∀ v ∈ vars.plain, ∀ w ∈ vars.plain, ∀ s e x e', (w = v → e' ≠ e) →
    w.get (v.set s e x) e' = w.get s e'
  withGraph : ∀ v ∈ vars.chained, ∀ w ∈ vars.plain, ∀ s g e, w.get (v.withGraph s g) e = w.get s e

/-- The graphs of all chained variables pass the check. -/
def Valid (vars : Variables S) (s : S) : Prop :=
  ∀ c ∈ vars.chained, (c.graph s).validate = .ok ()

end Variables

namespace Move

variable {S : Type} {vars : Variables S} {v : ChainedVariable S} {m undo : Move S}
variable {parts : List (Move S)} {run : SubChain} {target : Option Handle} {reversing : Bool}
variable {s : S} {plan : SplicePlan} {g' : ChainGraph}

/-- The move and its parts write the given variables only, of entities that they range over. -/
inductive Over (vars : Variables S) : Move S → Prop
  | change {v : PlainVariable S} {e : Nat} (target : Option Nat) (member : v ∈ vars.plain)
    (ranges : vars.ranges v e) : Over vars (.change v e target)
  | chainedChange {v : ChainedVariable S} (e : Handle) (target : Option Handle)
    (member : v ∈ vars.chained) : Over vars (.chainedChange v e target)
  | changePart {v : ChainedVariable S} (run : SubChain) (target : Option Handle)
    (member : v ∈ vars.chained) : Over vars (.changePart v run target)
  | reverseChangePart {v : ChainedVariable S} (run : SubChain) (target : Option Handle)
    (member : v ∈ vars.chained) : Over vars (.reverseChangePart v run target)
  | composite {parts : List (Move S)} (all : ∀ part ∈ parts, Over vars part) :
    Over vars (.composite parts)

/-- Neither the move nor a part of it takes a run of several entities out of all chains. -/
inductive KeepsRuns : Move S → Prop
  | change (v : PlainVariable S) (e : Nat) (target : Option Nat) : KeepsRuns (.change v e target)
  | chainedChange (v : ChainedVariable S) (e : Handle) (target : Option Handle) :
    KeepsRuns (.chainedChange v e target)
  | changePart (v : ChainedVariable S) {run : SubChain} {target : Option Handle}
    (single : target = none → run.length = 1) : KeepsRuns (.changePart v run target)
  | reverseChangePart (v : ChainedVariable S) {run : SubChain} {target : Option Handle}
    (single : target = none → run.length = 1) : KeepsRuns (.reverseChangePart v run target)
  | composite {parts : List (Move S)} (all : ∀ part ∈ parts, KeepsRuns part) :
    KeepsRuns (.composite parts)

/-! ## Relocations of a solution -/

/-- Writes that are accepted by the graph replace the graph of the solution. -/
theorem writeLinks_eq {links : List LinkChange} (lawful : v.Lawful)
    (written : (v.graph s).writeLinks links = .ok g') :
    writeLinks v links s = (v.withGraph s g',
      bracketLog (links.map fun link => (v.descriptorIndex, link.entity.index, v.name)),
      .ok ()) := by
  induction links generalizing s with
  | nil =>
    rw [← Except.ok.inj written, lawful.withGraph_graph]
    rfl
  | cons link rest ih =>
    obtain ⟨old, next, first, others⟩ := ChainGraph.writeLinks_cons_eq_ok.1 written
    rw [← lawful.graph_withGraph s next] at others
    rw [writeLinks, first]
    dsimp only
    rw [ih others, lawful.withGraph_withGraph]
    rfl

theorem relocate_eq (lawful : v.Lawful) (back : Option Handle → Move S)
    (planned : (v.graph s).planMove run target reversing = .ok plan)
    (written : (v.graph s).applyPlan plan = .ok g') :
    relocate v run target reversing back s = ⟨v.withGraph s g',
      bracketLog (plan.links.map fun link => (v.descriptorIndex, link.entity.index, v.name)),
      .ok (back plan.oldPredecessor)⟩ := by
  rw [relocate, planned]
  dsimp only
  rw [writeLinks_eq lawful written]
  rfl

theorem relocate_refused {e : ChainError} (back : Option Handle → Move S)
    (refused : (v.graph s).planMove run target reversing = .error e) :
    relocate v run target reversing back s = ⟨s, [], .error e⟩ := by
  rw [relocate, refused]

/-- What a relocation of a valid solution leads to, and that moving the block back takes it back. -/
theorem relocate_back (lawful : v.Lawful) (valid : (v.graph s).Valid)
    (single : target = none → run.length = 1) (back : Option Handle → Move S)
    (planned : (v.graph s).planMove run target reversing = .ok plan) :
    ∃ g' bs, g'.Valid ∧
      relocate v run target reversing back s =
        ⟨v.withGraph s g', bracketLog bs, .ok (back plan.oldPredecessor)⟩ ∧
      ∀ again, relocate v (run.oriented reversing) plan.oldPredecessor reversing again
        (v.withGraph s g') = ⟨s, bracketLog bs.reverse, .ok (again target)⟩ := by
  obtain ⟨placeable, g', written, moved⟩ := valid.applyPlan planned
  refine ⟨g', _, moved.valid valid placeable single, relocate_eq lawful back planned written,
    fun again => ?_⟩
  obtain ⟨plannedBack, restored⟩ := valid.planMove_back planned single written
  rw [← lawful.graph_withGraph s g'] at plannedBack restored
  rw [relocate_eq lawful again plannedBack restored, lawful.withGraph_withGraph,
    lawful.withGraph_graph]
  simp [LinkChange.swapped, Function.comp_def]

/-! ## Moves of any nesting -/

/-- The application of a move leaves valid chains and is taken back by its undo move. -/
structure Reverts (vars : Variables S) (m : Move S) (s : S) (undo : Move S) : Prop where
  valid : vars.Valid (m.apply s).solution
  result : (undo.apply (m.apply s).solution).result = .ok m
  solution : (undo.apply (m.apply s).solution).solution = s
  log : ∃ bs, (m.apply s).notifications = bracketLog bs ∧
    (undo.apply (m.apply s).solution).notifications = bracketLog bs.reverse

theorem valid_withGraph (lawful : vars.Lawful) (member : v ∈ vars.chained) (valid : vars.Valid s)
    (valid' : g'.Valid) : vars.Valid (v.withGraph s g') := fun c known =>
  ChainGraph.validate_eq_ok_iff.2 (lawful.valid_withGraph v member c known s g'
    (ChainGraph.validate_eq_ok_iff.1 (valid c known)) valid')

theorem reverts_change (lawful : vars.Lawful) {v : PlainVariable S} {e : Nat}
    (member : v ∈ vars.plain) (ranges : vars.ranges v e) (x : Option Nat) (valid : vars.Valid s)
    (applied : ((Move.change v e x).apply s).result = .ok undo) :
    Reverts vars (.change v e x) s undo := by
  rw [apply_change] at applied
  by_cases same : v.get s e = x
  · rw [if_pos same] at applied
    obtain rfl := Except.ok.inj applied
    have there : (Move.change v e x).apply s = ⟨s, [], .ok (.change v e x)⟩ := by
      rw [apply_change, if_pos same, same]
    rw [same]
    exact ⟨by rwa [there], by rw [there, there], by rw [there, there], [], by rw [there]; rfl,
      by rw [there, there]; rfl⟩
  · rw [if_neg same] at applied
    obtain rfl := Except.ok.inj applied
    have there : (Move.change v e x).apply s = ⟨v.set s e x, bracket v.descriptorIndex e v.name,
        .ok (.change v e (v.get s e))⟩ := by
      rw [apply_change, if_neg same]
    have law := lawful.plain v member
    have back : (Move.change v e (v.get s e)).apply (v.set s e x) =
        ⟨s, bracket v.descriptorIndex e v.name, .ok (.change v e x)⟩ := by
      rw [apply_change, law.get_set s e x ranges, if_neg (Ne.symm same), law.set_get s e x ranges]
    refine ⟨?_, by rw [there, back], by rw [there, back], [(v.descriptorIndex, e, v.name)],
      by rw [there]; rfl, by rw [there, back]; rfl⟩
    rw [there]
    exact fun c known => ChainGraph.validate_eq_ok_iff.2 (lawful.valid_set v member c known s e x
      (ChainGraph.validate_eq_ok_iff.1 (valid c known)))

/-- A move that relocates a run is taken back by a move that moves the block back. -/
theorem reverts_relocate (lawful : vars.Lawful) (member : v ∈ vars.chained)
    (valid : vars.Valid s) (single : target = none → run.length = 1)
    {back again : Option Handle → Move S}
    (there : ∀ s, m.apply s = relocate v run target reversing back s)
    (opposite : ∀ old s, (back old).apply s =
      relocate v (run.oriented reversing) old reversing again s)
    (redo : again target = m) (applied : (m.apply s).result = .ok undo) :
    Reverts vars m s undo := by
  have law := lawful.chained v member
  have validGraph := ChainGraph.validate_eq_ok_iff.1 (valid v member)
  cases planned : (v.graph s).planMove run target reversing with
  | error e =>
    rw [there, relocate_refused back planned] at applied
    cases applied
  | ok plan =>
    obtain ⟨g', bs, valid', forth, restored⟩ :=
      relocate_back law validGraph single back planned
    rw [there, forth] at applied
    obtain rfl := Except.ok.inj applied
    have taken := (opposite plan.oldPredecessor (v.withGraph s g')).trans (restored again)
    rw [redo] at taken
    have forth := (there s).trans forth
    refine ⟨?_, by rw [forth, taken], by rw [forth, taken], bs, by rw [forth],
      by rw [forth, taken]⟩
    rw [forth]
    exact valid_withGraph lawful member valid valid'

/-- The undo moves of the parts take the parts back in opposite order, and then come the undo moves
that were there before. -/
theorem reverts_parts
    (each : ∀ part ∈ parts, ∀ s undo, vars.Valid s → (part.apply s).result = .ok undo →
      Reverts vars part s undo) {undos : List (Move S)} (valid : vars.Valid s)
    (applied : (applyParts apply parts undos s).result = .ok undo) :
    ∃ us bs, undo = .composite (us ++ undos) ∧
      vars.Valid (applyParts apply parts undos s).solution ∧
      (applyParts apply parts undos s).notifications = bracketLog bs ∧
      ∀ rest acc, applyParts apply (us ++ rest) acc (applyParts apply parts undos s).solution =
        let b := applyParts apply rest (parts ++ acc) s
        ⟨b.solution, bracketLog bs.reverse ++ b.notifications, b.result⟩ := by
  induction parts generalizing undos s with
  | nil => exact ⟨[], [], (Except.ok.inj applied).symm, valid, rfl, fun rest acc => rfl⟩
  | cons part rest ih =>
    cases first : (part.apply s).result with
    | error e =>
      rw [applyParts_cons_of_error first] at applied
      cases applied
    | ok back =>
      have reverts := each part (by simp) s back valid first
      obtain ⟨bs, log, logBack⟩ := reverts.log
      rw [applyParts_cons_of_ok first] at applied ⊢
      obtain ⟨us, cs, rfl, valid', others, restored⟩ :=
        ih (fun m member => each m (by simp [member])) reverts.valid applied
      refine ⟨us ++ [back], bs ++ cs, by simp, valid', by simp [log, others], fun tail acc => ?_⟩
      -- After the undo moves of the later parts comes that of the first one.
      have turn : applyParts apply (back :: tail) (rest ++ acc) (part.apply s).solution =
          let b := applyParts apply tail (part :: (rest ++ acc)) s
          ⟨b.solution, bracketLog bs.reverse ++ b.notifications, b.result⟩ := by
        rw [applyParts_cons_of_ok reverts.result, reverts.solution, logBack]
      rw [List.append_assoc, List.singleton_append, restored, turn]
      simp

theorem reverts (lawful : vars.Lawful) (own : m.Over vars) (keeps : m.KeepsRuns)
    (valid : vars.Valid s) (applied : (m.apply s).result = .ok undo) : Reverts vars m s undo := by
  induction m using Move.induction generalizing s undo with
  | change v e x =>
    cases own with
    | change _ member ranges => exact reverts_change lawful member ranges x valid applied
  | chainedChange v e target =>
    cases own with
    | chainedChange _ _ member =>
      exact reverts_relocate lawful member valid (fun _ => rfl) (apply_chainedChange v e target)
        (apply_chainedChange v e) rfl applied
  | changePart v run target =>
    cases own with
    | changePart _ _ member =>
      cases keeps with
      | changePart _ single =>
        exact reverts_relocate lawful member valid single (apply_changePart v run target)
          (apply_changePart v run) rfl applied
  | reverseChangePart v run target =>
    cases own with
    | reverseChangePart _ _ member =>
      cases keeps with
      | reverseChangePart _ single =>
        exact reverts_relocate lawful member valid single (apply_reverseChangePart v run target)
          (apply_reverseChangePart v run.reversed) (by rw [SubChain.reversed_reversed]) applied
  | composite parts ih =>
    cases own with
    | composite own =>
      cases keeps with
      | composite keeps =>
        rw [apply_composite] at applied
        obtain ⟨us, bs, rfl, valid', log, restored⟩ := reverts_parts
          (fun part member s undo valid applied =>
            ih part member (own part member) (keeps part member) valid applied) valid applied
        have back : (Move.composite (us ++ [])).apply ((Move.composite parts).apply s).solution =
            ⟨s, bracketLog bs.reverse, .ok (.composite parts)⟩ := by
          rw [apply_composite, apply_composite, restored [] []]
          simp [applyParts]
        exact ⟨by rwa [apply_composite], by rw [back], by rw [back], bs,
          by rw [apply_composite, log], by rw [back]⟩

/-- A move that was applied is taken back by its undo move: the solution is restored, the brackets
come in opposite order, and the undo move of the undo move is the move itself. -/
theorem apply_undo (vars : Variables S) (lawful : vars.Lawful) (m : Move S) (own : m.Over vars)
    (keeps : m.KeepsRuns) (s : S) (valid : vars.Valid s) (undo : Move S)
    (applied : (m.apply s).result = .ok undo) :
    (undo.apply (m.apply s).solution).result = .ok m ∧
      (undo.apply (m.apply s).solution).solution = s ∧
      ∃ brackets, (m.apply s).notifications = bracketLog brackets ∧
        (undo.apply (m.apply s).solution).notifications = bracketLog brackets.reverse := by
  have reverts := reverts lawful own keeps valid applied
  exact ⟨reverts.result, reverts.solution, reverts.log⟩

end Move

/-! ## A solution with a variable of each kind -/

/-- Strings and beads in chains, each with a colour, which are kept in an array. -/
structure Necklace where
  graph : ChainGraph
  colours : Vector (Option Nat) 4

namespace Necklace

/-- Beyond the end of the array there are no colours. -/
def colour (s : Necklace) (e : Nat) : Option Nat := s.colours[e]?.join

def previous : ChainedVariable Necklace where
  name := "previous"
  descriptorIndex := 0
  graph := Necklace.graph
  withGraph s graph := { s with graph }

def colourOf : PlainVariable Necklace where
  name := "colour"
  descriptorIndex := 0
  get := colour
  set s e x := { s with colours := s.colours.setIfInBounds e x }

def vars : Variables Necklace := ⟨[colourOf], [previous], fun _ e => e < 4⟩

theorem colour_set_self (s : Necklace) {e : Nat} (x : Option Nat) (known : e < 4) :
    (colourOf.set s e x).colour e = x := by
  simp [colour, colourOf, known]

theorem colour_set_of_ne (s : Necklace) {e e' : Nat} (x : Option Nat) (other : e' ≠ e) :
    (colourOf.set s e x).colour e' = s.colour e' := by
  simp [colour, colourOf, Vector.getElem?_setIfInBounds_ne (Ne.symm other)]

/-- A colour that is there can be written, and what was there is written back. -/
theorem lawful_colourOf : colourOf.Lawful (· < 4) := by
  refine ⟨fun s e x known => colour_set_self s x known, fun s e x known => ?_⟩
  have back : (s.colours.setIfInBounds e x).setIfInBounds e (s.colour e) = s.colours := by
    ext i within
    by_cases same : e = i
    · subst same
      simp [colour, known]
    · simp [same]
  exact congrArg (Necklace.mk s.graph) back

theorem lawful_vars : vars.Lawful :=
  .pair lawful_colourOf ⟨fun _ _ => rfl, fun _ => rfl, fun _ _ _ => rfl⟩ fun _ _ _ => rfl

/-- Two beads on the first of two strings. -/
def plain : Necklace := ⟨ChainGraph.twoChains, .replicate 4 none⟩

theorem valid_plain : vars.Valid plain := by
  intro c member
  obtain rfl := List.mem_singleton.1 member
  decide

/-- Both beads. -/
def beads : SubChain := ⟨[⟨2⟩, ⟨3⟩], List.cons_ne_nil _ _⟩

/-- Colours a bead, moves both beads to the second string in opposite order, and takes off one. -/
def rearrange : Move Necklace :=
  .composite [.change colourOf 2 (some 7),
    .composite [.reverseChangePart previous beads (some ⟨1⟩),
      .chainedChange previous ⟨2⟩ none]]

theorem over_rearrange : rearrange.Over vars := by
  refine .composite (List.forall_mem_cons.2 ⟨.change _ (by simp [vars]) (by decide : 2 < 4),
    List.forall_mem_singleton.2 (.composite ?_)⟩)
  exact List.forall_mem_cons.2 ⟨.reverseChangePart _ _ (by simp [vars]),
    List.forall_mem_singleton.2 (.chainedChange _ _ (by simp [vars]))⟩

theorem keepsRuns_rearrange : rearrange.KeepsRuns := by
  refine .composite (List.forall_mem_cons.2 ⟨.change _ _ _,
    List.forall_mem_singleton.2 (.composite ?_)⟩)
  exact List.forall_mem_cons.2 ⟨.reverseChangePart _ (by rintro ⟨⟩),
    List.forall_mem_singleton.2 (.chainedChange _ _ _)⟩

theorem apply_undo_rearrange :
    ∃ undo, (rearrange.apply plain).result = .ok undo ∧
      (undo.apply (rearrange.apply plain).solution).result = .ok rearrange ∧
      (undo.apply (rearrange.apply plain).solution).solution = plain := by
  have applied : (rearrange.apply plain).result = .ok (.composite [.composite
      [.chainedChange previous ⟨2⟩ (some ⟨3⟩),
        .reverseChangePart previous beads.reversed (some ⟨0⟩)],
      .change colourOf 2 none]) := rfl
  obtain ⟨result, solution, -⟩ := Move.apply_undo vars lawful_vars rearrange over_rearrange
    keepsRuns_rearrange plain valid_plain _ applied
  exact ⟨_, applied, result, solution⟩

end Necklace

end PlanSearch
