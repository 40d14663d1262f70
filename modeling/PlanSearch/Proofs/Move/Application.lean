import PlanSearch.Move.Apply

/-!
# Applying moves, whatever their nesting

Moves are applied with a bound on their nesting. Any bound that suffices for a move gives the same
result, for the move itself and for the parts and undo moves that are applied along with it. A
composite is therefore applied by applying its parts. Whatever is applied, refused and taken back on
the way, the notifications are closed brackets.
-/

namespace PlanSearch

namespace Move

variable {S : Type} {m undo : Move S} {parts undos : List (Move S)} {s : S} {n : Nat}

/-- To prove something of all moves it may be assumed of the parts of a composite. -/
theorem induction {motive : Move S → Prop}
    (change : ∀ v e target, motive (.change v e target))
    (chainedChange : ∀ v e target, motive (.chainedChange v e target))
    (changePart : ∀ v run target, motive (.changePart v run target))
    (reverseChangePart : ∀ v run target, motive (.reverseChangePart v run target))
    (composite : ∀ parts, (∀ part ∈ parts, motive part) → motive (.composite parts)) :
    ∀ m, motive m
  | .change v e target => change v e target
  | .chainedChange v e target => chainedChange v e target
  | .changePart v run target => changePart v run target
  | .reverseChangePart v run target => reverseChangePart v run target
  | .composite parts => composite parts fun part member =>
    have := List.sizeOf_lt_of_mem member
    induction change chainedChange changePart reverseChangePart composite part
  termination_by m => sizeOf m

theorem depth_composite (parts : List (Move S)) :
    (Move.composite parts).depth = depthOfAll parts + 1 := rfl

theorem depthOfAll_le : depthOfAll parts ≤ n ↔ ∀ m ∈ parts, m.depth ≤ n := by
  induction parts with
  | nil => simp [depthOfAll]
  | cons m rest ih => rw [depthOfAll, Nat.max_le, List.forall_mem_cons, ih]

section Parts

variable {step : Move S → S → Applied S} {part : Move S} {rest : List (Move S)}

theorem applyParts_cons_of_ok (first : (step part s).result = .ok undo) :
    applyParts step (part :: rest) undos s =
      let b := applyParts step rest (undo :: undos) (step part s).solution
      ⟨b.solution, (step part s).notifications ++ b.notifications, b.result⟩ := by
  rw [applyParts, first]

theorem applyParts_cons_of_error {e : ChainError} (first : (step part s).result = .error e) :
    applyParts step (part :: rest) undos s =
      let b := rollBack step undos (step part s).solution
      ⟨b.1, (step part s).notifications ++ b.2, .error e⟩ := by
  rw [applyParts, first]

end Parts

/-! ## Independence of the bound -/

/-- Two ways to apply moves agree on all moves of a kind, and the undo moves are of that kind. -/
structure Agree (good : Move S → Prop) (step step' : Move S → S → Applied S) : Prop where
  same : ∀ m, good m → ∀ s, step m s = step' m s
  undo : ∀ m, good m → ∀ s u, (step m s).result = .ok u → good u

namespace Agree

variable {good : Move S → Prop} {step step' : Move S → S → Applied S}

theorem rollBack_eq (agree : Agree good step step') (of_undos : ∀ m ∈ undos, good m) (s : S) :
    rollBack step undos s = rollBack step' undos s := by
  induction undos generalizing s with
  | nil => rfl
  | cons undo rest ih =>
    rw [rollBack, rollBack, agree.same undo (of_undos undo (by simp)),
      ih fun m member => of_undos m (by simp [member])]

theorem applyParts_eq (agree : Agree good step step') (of_parts : ∀ m ∈ parts, good m)
    (of_undos : ∀ m ∈ undos, good m) (s : S) :
    applyParts step parts undos s = applyParts step' parts undos s := by
  induction parts generalizing undos s with
  | nil => rfl
  | cons part rest ih =>
    have first := of_parts part (by simp)
    have same := agree.same part first s
    cases applied : (step part s).result with
    | error e =>
      rw [applyParts_cons_of_error applied, applyParts_cons_of_error (same ▸ applied), ← same,
        agree.rollBack_eq of_undos]
    | ok undo =>
      have others := ih (fun m member => of_parts m (by simp [member]))
        (List.forall_mem_cons.2 ⟨agree.undo part first s undo applied, of_undos⟩)
      rw [applyParts_cons_of_ok applied, applyParts_cons_of_ok (same ▸ applied), ← same, others]

/-- The undo move of a composite consists of undo moves. -/
theorem undo_applyParts (agree : Agree good step step') (of_parts : ∀ m ∈ parts, good m)
    (of_undos : ∀ m ∈ undos, good m) (applied : (applyParts step parts undos s).result = .ok m) :
    ∃ us, m = .composite us ∧ ∀ u ∈ us, good u := by
  induction parts generalizing undos s with
  | nil => exact ⟨undos, (Except.ok.inj applied).symm, of_undos⟩
  | cons part rest ih =>
    cases first : (step part s).result with
    | error e =>
      rw [applyParts_cons_of_error first] at applied
      cases applied
    | ok undo =>
      rw [applyParts_cons_of_ok first] at applied
      have kind := agree.undo part (of_parts part (by simp)) s undo first
      exact ih (fun m member => of_parts m (by simp [member]))
        (List.forall_mem_cons.2 ⟨kind, of_undos⟩) applied

end Agree

theorem relocate_eq_ok {v : ChainedVariable S} {run : SubChain} {target : Option Handle}
    {reversing : Bool} {back : Option Handle → Move S}
    (applied : (relocate v run target reversing back s).result = .ok undo) :
    ∃ old, undo = back old := by
  unfold relocate at applied
  split at applied
  · cases applied
  · rename_i plan _
    cases written : (writeLinks v plan.links s).2.2 with
    | error e =>
      simp only [written] at applied
      cases applied
    | ok _ =>
      simp only [written] at applied
      exact ⟨_, (Except.ok.inj applied).symm⟩

section Kinds

variable (n : Nat) (s : S)

theorem applyWithin_change (v : PlainVariable S) (e : Nat) (target : Option Nat) :
    applyWithin n (.change v e target) s =
      if v.get s e = target then ⟨s, [], .ok (.change v e (v.get s e))⟩
      else ⟨v.set s e target, bracket v.descriptorIndex e v.name,
        .ok (.change v e (v.get s e))⟩ := by
  cases n <;> rfl

theorem applyWithin_chainedChange (v : ChainedVariable S) (e : Handle) (target : Option Handle) :
    applyWithin n (.chainedChange v e target) s =
      relocate v (.single e) target false (fun old => .chainedChange v e old) s := by
  cases n <;> rfl

theorem applyWithin_changePart (v : ChainedVariable S) (run : SubChain) (target : Option Handle) :
    applyWithin n (.changePart v run target) s =
      relocate v run target false (fun old => .changePart v run old) s := by
  cases n <;> rfl

theorem applyWithin_reverseChangePart (v : ChainedVariable S) (run : SubChain)
    (target : Option Handle) : applyWithin n (.reverseChangePart v run target) s =
      relocate v run target true (fun old => .reverseChangePart v run.reversed old) s := by
  cases n <;> rfl

theorem applyWithin_composite (parts : List (Move S)) :
    applyWithin (n + 1) (.composite parts) s = applyParts (applyWithin n) parts [] s := rfl

end Kinds

/-- A move that is not composed is applied in the same way under every bound. -/
theorem applyWithin_of_depth (simple : m.depth = 0) (n : Nat) (s : S) :
    applyWithin n m s = applyWithin 0 m s := by
  cases m with
  | composite parts => cases simple
  | _ => cases n <;> rfl

theorem depth_undo_of_depth (simple : m.depth = 0)
    (applied : (applyWithin n m s).result = .ok undo) : undo.depth = 0 := by
  cases m with
  | change v e target =>
    rw [applyWithin_change] at applied
    split at applied <;> exact Except.ok.inj applied ▸ rfl
  | chainedChange v e target =>
    rw [applyWithin_chainedChange] at applied
    obtain ⟨old, rfl⟩ := relocate_eq_ok applied
    rfl
  | changePart v run target =>
    rw [applyWithin_changePart] at applied
    obtain ⟨old, rfl⟩ := relocate_eq_ok applied
    rfl
  | reverseChangePart v run target =>
    rw [applyWithin_reverseChangePart] at applied
    obtain ⟨old, rfl⟩ := relocate_eq_ok applied
    rfl
  | composite parts => cases simple

theorem depth_eq_zero_or (m : Move S) :
    m.depth = 0 ∨ ∃ parts, m = .composite parts ∧ m.depth = depthOfAll parts + 1 := by
  cases m with
  | composite parts => exact .inr ⟨parts, rfl, depth_composite parts⟩
  | _ => exact .inl rfl

/-- A greater bound than needed makes no difference. -/
theorem agree_applyWithin (n : Nat) :
    Agree (S := S) (fun m => m.depth ≤ n) (applyWithin n) (applyWithin (n + 1)) := by
  induction n with
  | zero =>
    refine ⟨fun m simple s => ?_, fun m simple s u applied => ?_⟩
    · exact (applyWithin_of_depth (Nat.le_zero.1 simple) 1 s).symm
    · exact Nat.le_of_eq (depth_undo_of_depth (Nat.le_zero.1 simple) applied)
  | succ n ih =>
    refine ⟨fun m enough s => ?_, fun m enough s u applied => ?_⟩
    · rcases depth_eq_zero_or m with simple | ⟨parts, rfl, nested⟩
      · rw [applyWithin_of_depth simple, applyWithin_of_depth simple (n + 1 + 1)]
      · rw [nested, Nat.add_le_add_iff_right, depthOfAll_le] at enough
        rw [applyWithin_composite, applyWithin_composite,
          ih.applyParts_eq enough (List.forall_mem_nil _)]
    · rcases depth_eq_zero_or m with simple | ⟨parts, rfl, nested⟩
      · rw [depth_undo_of_depth simple applied]
        exact Nat.zero_le _
      · rw [nested, Nat.add_le_add_iff_right, depthOfAll_le] at enough
        rw [applyWithin_composite] at applied
        obtain ⟨us, rfl, shallow⟩ := ih.undo_applyParts enough (List.forall_mem_nil _) applied
        rw [depth_composite, Nat.add_le_add_iff_right, depthOfAll_le]
        exact shallow

theorem applyWithin_eq_apply (enough : m.depth ≤ n) (s : S) : applyWithin n m s = m.apply s := by
  induction enough with
  | refl => rfl
  | step enough ih => rw [← (agree_applyWithin _).same m enough, ih]

theorem depth_undo (applied : (m.apply s).result = .ok undo) : undo.depth ≤ m.depth :=
  (agree_applyWithin m.depth).undo m (Nat.le_refl _) s undo applied

/-! ## Each kind of move -/

theorem apply_change (v : PlainVariable S) (e : Nat) (target : Option Nat) (s : S) :
    (Move.change v e target).apply s =
      if v.get s e = target then ⟨s, [], .ok (.change v e (v.get s e))⟩
      else ⟨v.set s e target, bracket v.descriptorIndex e v.name,
        .ok (.change v e (v.get s e))⟩ := applyWithin_change ..

theorem apply_chainedChange (v : ChainedVariable S) (e : Handle) (target : Option Handle) (s : S) :
    (Move.chainedChange v e target).apply s =
      relocate v (.single e) target false (fun old => .chainedChange v e old) s := applyWithin_chainedChange ..

theorem apply_changePart (v : ChainedVariable S) (run : SubChain) (target : Option Handle) (s : S) :
    (Move.changePart v run target).apply s =
      relocate v run target false (fun old => .changePart v run old) s := applyWithin_changePart ..

theorem apply_reverseChangePart (v : ChainedVariable S) (run : SubChain) (target : Option Handle)
    (s : S) : (Move.reverseChangePart v run target).apply s =
      relocate v run target true (fun old => .reverseChangePart v run.reversed old) s :=
  applyWithin_reverseChangePart ..

/-- A composite is applied by applying its parts. -/
theorem apply_composite (parts : List (Move S)) (s : S) :
    (Move.composite parts).apply s = applyParts apply parts [] s := by
  have shallow := depthOfAll_le.1 (Nat.le_refl (depthOfAll parts))
  have agree : Agree (S := S) (fun m => m.depth ≤ depthOfAll parts)
      (applyWithin (depthOfAll parts)) apply :=
    ⟨fun m enough s => applyWithin_eq_apply enough s,
      (agree_applyWithin (depthOfAll parts)).undo⟩
  rw [apply, depth_composite, applyWithin_composite, agree.applyParts_eq shallow (List.forall_mem_nil _)]

theorem isAnyDoable_eq_any (parts : List (Move S)) (s : S) :
    isAnyDoable s parts = parts.any (isDoable s) := by
  induction parts with
  | nil => rfl
  | cons m rest ih => rw [isAnyDoable, List.any_cons, ih]

/-! ## Notifications -/

/-- The log of brackets, each around the write of one variable. -/
def bracketLog (brackets : List (Nat × Nat × String)) : List Notification :=
  brackets.flatMap fun (descriptor, entity, name) => bracket descriptor entity name

@[simp] theorem bracketLog_append (bs cs : List (Nat × Nat × String)) :
    bracketLog (bs ++ cs) = bracketLog bs ++ bracketLog cs := List.flatMap_append

theorem isBalanced_bracketLog (bs : List (Nat × Nat × String)) :
    Notification.isBalanced (bracketLog bs) := by
  induction bs with
  | nil => rfl
  | cons b rest ih =>
    have split : bracketLog (b :: rest) = bracket b.1 b.2.1 b.2.2 ++ bracketLog rest := rfl
    simpa [split, bracket, Notification.isBalanced, Notification.isBefore, Notification.subject]
      using ih

/-- A log of closed brackets. -/
def IsBracketLog (log : List Notification) : Prop := ∃ bs, log = bracketLog bs

theorem IsBracketLog.append {log log' : List Notification} (first : IsBracketLog log)
    (second : IsBracketLog log') : IsBracketLog (log ++ log') := by
  obtain ⟨bs, rfl⟩ := first
  obtain ⟨cs, rfl⟩ := second
  exact ⟨bs ++ cs, (bracketLog_append bs cs).symm⟩

theorem isBracketLog_bracket (descriptor entity : Nat) (name : String) :
    IsBracketLog (bracket descriptor entity name) := ⟨[(descriptor, entity, name)], rfl⟩

theorem isBracketLog_writeLinks (v : ChainedVariable S) (links : List LinkChange) (s : S) :
    IsBracketLog (writeLinks v links s).2.1 := by
  induction links generalizing s with
  | nil => exact ⟨[], rfl⟩
  | cons link rest ih =>
    have note := isBracketLog_bracket v.descriptorIndex link.entity.index v.name
    rw [writeLinks]
    split
    · exact note
    · exact note.append (ih _)

theorem isBracketLog_relocate (v : ChainedVariable S) (run : SubChain) (target : Option Handle)
    (reversing : Bool) (back : Option Handle → Move S) (s : S) :
    IsBracketLog (relocate v run target reversing back s).notifications := by
  unfold relocate
  split
  · exact ⟨[], rfl⟩
  · exact isBracketLog_writeLinks v _ s

section Parts

variable {step : Move S → S → Applied S}
variable (each : ∀ m s, IsBracketLog (step m s).notifications)
include each

theorem isBracketLog_rollBack (undos : List (Move S)) (s : S) :
    IsBracketLog (rollBack step undos s).2 := by
  induction undos generalizing s with
  | nil => exact ⟨[], rfl⟩
  | cons undo rest ih => exact (each undo s).append (ih _)

theorem isBracketLog_applyParts (parts undos : List (Move S)) (s : S) :
    IsBracketLog (applyParts step parts undos s).notifications := by
  induction parts generalizing undos s with
  | nil => exact ⟨[], rfl⟩
  | cons part rest ih =>
    rw [applyParts]
    dsimp only
    split
    · exact (each part s).append (ih _ _)
    · exact (each part s).append (isBracketLog_rollBack each undos _)

end Parts

theorem isBracketLog_of_depth (simple : m.depth = 0) (n : Nat) (s : S) :
    IsBracketLog (applyWithin n m s).notifications := by
  cases m with
  | change v e target =>
    rw [applyWithin_change]
    split
    · exact ⟨[], rfl⟩
    · exact isBracketLog_bracket v.descriptorIndex e v.name
  | chainedChange v e target =>
    rw [applyWithin_chainedChange]
    exact isBracketLog_relocate ..
  | changePart v run target =>
    rw [applyWithin_changePart]
    exact isBracketLog_relocate ..
  | reverseChangePart v run target =>
    rw [applyWithin_reverseChangePart]
    exact isBracketLog_relocate ..
  | composite parts => cases simple

theorem isBracketLog_applyWithin (n : Nat) (m : Move S) (s : S) :
    IsBracketLog (applyWithin n m s).notifications := by
  induction n generalizing m s with
  | zero =>
    rcases depth_eq_zero_or m with simple | ⟨parts, rfl, -⟩
    · exact isBracketLog_of_depth simple 0 s
    · exact ⟨[], rfl⟩
  | succ n ih =>
    rcases depth_eq_zero_or m with simple | ⟨parts, rfl, -⟩
    · exact isBracketLog_of_depth simple (n + 1) s
    · rw [applyWithin_composite]
      exact isBracketLog_applyParts ih parts [] s

/-- Whether or not a move is refused, what watchers are told are closed brackets. -/
theorem isBalanced_notifications (m : Move S) (s : S) :
    Notification.isBalanced (m.apply s).notifications := by
  obtain ⟨bs, log⟩ := isBracketLog_applyWithin m.depth m s
  rw [apply, log]
  exact isBalanced_bracketLog bs

end Move

end PlanSearch
