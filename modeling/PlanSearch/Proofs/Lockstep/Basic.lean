import PlanSearch.Proofs.Fault
import PlanSearch.Proofs.Lockstep.Together
import PlanSearch.Search.Phase

/-!
# Two searches side by side

Two searches under conditions that differ at most in what is checked are looked at together. What
they have in common at the beginning of a step is a relation that depends on a situation, which may
say, for instance, what the working solution is, and on the score of the working solution. A
lockstep says that the few operations that look at the working solution keep up such a relation.
All others keep it up because they look at nothing but what the searches share.
-/

namespace PlanSearch

variable {S ι : Type} {sh : Shape} {α β : Type}

/-- The conditions with another decision about what is checked. -/
def Conditions.under (c : Conditions S sh) (mode : Config.EnvironmentMode) : Conditions S sh :=
  { c with mode }

@[simp] theorem Conditions.under_termination (c : Conditions S sh) (mode : Config.EnvironmentMode) :
    (c.under mode).termination = c.termination := rfl

@[simp] theorem Conditions.under_problem (c : Conditions S sh) (mode : Config.EnvironmentMode) :
    (c.under mode).problem = c.problem := rfl

namespace Scope

/-- The scopes agree in everything but their directors. -/
def Twin (s t : Scope S sh) : Prop := t = { s with director := t.director }

namespace Twin

theorem refl (s : Scope S sh) : s.Twin s := rfl

variable {s t u : Scope S sh} (twin : s.Twin t)
include twin

theorem symm : t.Twin s := by
  rw [Twin] at twin ⊢
  rw [twin]

theorem trans (twin' : t.Twin u) : s.Twin u := by
  rw [Twin] at twin twin' ⊢
  rw [twin', twin]

theorem generator : t.generator = s.generator := by
  rw [Twin] at twin
  rw [twin]

theorem best : t.best = s.best := by
  rw [Twin] at twin
  rw [twin]

theorem interrupted : t.interrupted = s.interrupted := by
  rw [Twin] at twin
  rw [twin]

theorem steps : t.steps = s.steps := by
  rw [Twin] at twin
  rw [twin]

theorem events : t.events = s.events := by
  rw [Twin] at twin
  rw [twin]

end Twin

/-- Both searches failed with the same error, which is one of the given ones. -/
def Failed (errors : PlanError → Prop) (e : PlanError) (s t : Scope S sh) : Prop :=
  s.Twin t ∧ errors e

/-- Both searches broke off with the same fault, which is one of the given ones. -/
def Broken (faults : Fault → Prop) (e : Fault) (s t : Scope S sh) : Prop :=
  s.events = t.events ∧ faults e

end Scope

/-- Searches under `c` and under `c.under mode` that try only good moves stay together. -/
structure Lockstep (c : Conditions S sh) (mode : Config.EnvironmentMode) (good : Move S → Prop)
    (ι : Type) where
  /-- The searches are at the beginning of a step, in a situation and with a score. -/
  At : ι → Score sh → Scope S sh → Scope S sh → Prop
  /-- A move with the given score was made that has not been offered as the best. -/
  Made : ι → Score sh → Scope S sh → Scope S sh → Prop
  /-- In a situation a move leads to a solution with a score. -/
  Leads : ι → Move S → Score sh → Prop
  /-- A situation may come after another one. -/
  Goes : ι → ι → Prop
  /-- Two working solutions look the same. -/
  Same : S → S → Prop
  /-- The errors that a move can lead to. -/
  errors : PlanError → Prop
  faults : Fault → Prop
  /-- Differences of scores may be asked for. -/
  anneals : Prop
  goes_refl : ∀ i, Goes i i
  goes_trans : ∀ {i j k}, Goes i j → Goes j k → Goes i k
  twin : ∀ {i x s t}, At i x s t → s.Twin t
  same : ∀ {i x s t}, At i x s t → Same s.director.solution t.director.solution
  generator : ∀ {i x s t}, At i x s t → ∀ generator,
    At i x { s with generator } { t with generator }
  readings : ∀ {i x s t}, At i x s t → ∀ readings, At i x { s with readings } { t with readings }
  steps : ∀ {i x s t}, At i x s t → ∀ steps, At i x { s with steps } { t with steps }
  events : ∀ {i x s t}, At i x s t → ∀ e : Event S sh, e.kind ≠ .bestChanged → ∀ interrupted,
    At i x { s with events := s.events.push e, interrupted }
      { t with events := t.events.push e, interrupted }
  isInitialized : ∀ {a b}, Same a b → c.problem.isInitialized a = c.problem.isInitialized b
  isDoable : ∀ {a b m}, Same a b → good m → m.isDoable a = m.isDoable b
  not_stalled : ∀ {e}, errors e → e.kind ≠ "Stall"
  exhausted : faults .exhausted
  differs : anneals → ∀ {i x s t m y}, At i x s t → good m → Leads i m y → y < x →
    Breaks faults (x.sub y)
  calculate : ∀ i x, RunTogether (At i x) (Search.calculate c) (Search.calculate c)
    (fun y => At i y) (Scope.Broken faults)
  evaluate : ∀ i x m, good m →
    TryTogether (fun s t => At i x s t ∧ m.isDoable s.director.solution = true)
      (Search.evaluate c m x) (Search.evaluate (c.under mode) m x)
      (fun y s t => Leads i m y ∧ At i x s t) (Scope.Failed errors) (Scope.Broken faults)
  apply : ∀ i x m y, good m → Leads i m y →
    TryTogether (At i x) (Search.apply m) (Search.apply m)
      (fun _ s t => ∃ j, Goes i j ∧ Made j y s t) (Scope.Failed errors) (Scope.Broken faults)
  assertScore : ∀ i x,
    TryTogether (Made i x) (Search.assertScore c x) (Search.assertScore (c.under mode) x)
      (fun _ => Made i x) (Scope.Failed errors) (Scope.Broken faults)
  countStep : ∀ i x, RunTogether (Made i x) Search.countStep Search.countStep
    (fun _ => Made i x) (Scope.Broken faults)
  offer : ∀ i x, RunTogether (Made i x) (Search.offer c x) (Search.offer c x)
    (fun _ s t => ∃ j, Goes i j ∧ At j x s t) (Scope.Broken faults)

/-! ## Operations that read the clock and the counts -/

/-- The operation looks at nothing of the director and changes nothing but the number of readings
of the clock. -/
def Search.Peeks (f : Search S sh α) : Prop :=
  ∀ s : Scope S sh, ∃ a readings, ∀ director, f.run.run { s with director } =
    (.ok a, { s with director, readings })

namespace Search.Peeks

variable {f : Search S sh α} {k : α → Search S sh β}

theorem pure (a : α) : Peeks (Pure.pure a : Search S sh α) := fun s => ⟨a, s.readings, fun _ => rfl⟩

theorem bind (first : Peeks f) (rest : ∀ a, Peeks (k a)) : Peeks (f >>= k) := by
  intro s
  obtain ⟨a, n, first⟩ := first s
  obtain ⟨b, n', rest⟩ := rest a { s with readings := n }
  refine ⟨b, n', fun d => ?_⟩
  rw [run_bind, first d]
  exact rest d

/-- What is read first has nothing to do with the director. -/
theorem get_bind {h : Scope S sh → Search S sh α}
    (free : ∀ s d, h { s with director := d } = h s) (rest : ∀ s, Peeks (h s)) :
    Peeks (get >>= h) := by
  intro s
  obtain ⟨a, n, ran⟩ := rest s s
  refine ⟨a, n, fun d => ?_⟩
  have read := ran d
  rw [← free s d] at read
  exact read

variable (c : Conditions S sh)

theorem now : Peeks (Search.now c) := fun s => ⟨c.clock s.readings, s.readings + 1, fun _ => rfl⟩

theorem elapsed : Peeks (Search.elapsed c) :=
  (now c).bind fun _ => get_bind (fun _ _ => rfl) fun _ => pure _

theorem progress : Peeks (Search.progress c) :=
  (elapsed c).bind fun _ => get_bind (fun _ _ => rfl) fun _ => pure _

theorem isTerminated : Peeks (Search.isTerminated c) := by
  refine get_bind (fun _ _ => rfl) fun s => ?_
  split
  · exact pure true
  · split
    · exact pure false
    · exact (progress c).bind fun _ => pure _

theorem share (α : Type) [Scale α] : Peeks (Search.share α c) := by
  unfold Search.share
  split
  · exact pure _
  · exact (progress c).bind fun _ => pure _

variable (own : Option (Termination sh)) (p : PhaseContext sh)

theorem phaseProgress : Peeks (p.progress c) :=
  (now c).bind fun _ => get_bind (fun _ _ => rfl) fun _ => pure _

theorem phaseIsTerminated : Peeks (p.isTerminated c own) := by
  refine (isTerminated c).bind fun stop => ?_
  split
  · exact pure true
  · split
    · exact pure false
    · exact (phaseProgress c p).bind fun _ => pure _

theorem phaseShare (α : Type) [Scale α] : Peeks (p.share α c own) := by
  have shares : Peeks (own.toList.mapM fun t =>
      (do return t.gradient (← p.progress c) : Search S sh α)) := by
    cases own with
    | none => exact pure []
    | some t =>
      rw [Option.toList_some, List.mapM_cons, List.mapM_nil]
      exact ((phaseProgress c p).bind fun _ => pure _).bind fun _ => (pure []).bind fun _ => pure _
  exact shares.bind fun _ => (share c α).bind fun _ => pure _

theorem phaseGradient : Peeks (p.gradient c own) := phaseShare c own p Float

end Search.Peeks

namespace Lockstep

variable {c : Conditions S sh} {mode : Config.EnvironmentMode} {good : Move S → Prop}
variable (L : Lockstep c mode good ι) {i : ι} {x : Score sh}

/-- Both searches failed with the same error: that of a move, or because there was no move. -/
def Failed (e : PlanError) (s t : Scope S sh) : Prop :=
  s.Twin t ∧ (L.errors e ∨ e.kind = "Stall")

/-- Both searches broke off with the same fault. -/
def Broken (e : Fault) (s t : Scope S sh) : Prop := Scope.Broken L.faults e s t

theorem failed_of_move {e : PlanError} {s t : Scope S sh} (failed : Scope.Failed L.errors e s t) :
    L.Failed e s t := ⟨failed.1, .inl failed.2⟩

/-! ## Operations on what the searches share -/

theorem fire (e : Event S sh) (other : e.kind ≠ .bestChanged) :
    RunTogether (L.At i x) (Search.fire c e) (Search.fire c e) (fun _ => L.At i x)
      L.Broken := by
  refine .modify fun s t related => ?_
  rw [(L.twin related).interrupted]
  exact L.events related e other _

theorem initialized :
    RunTogether (L.At i x) (Search.isInitialized c) (Search.isInitialized c) (fun _ => L.At i x)
      L.Broken := by
  refine .get_bind fun s t related => ?_
  rw [L.isInitialized (L.same related)]
  refine .pure _ ?_
  rintro _ _ ⟨rfl, rfl⟩
  exact related

theorem skipped :
    RunTogether (L.At i x) Search.countStep Search.countStep (fun _ => L.At i x) L.Broken := by
  refine .modify fun s t related => ?_
  rw [(L.twin related).steps]
  exact L.steps related _

theorem peek {f : Search S sh α} (peeks : Search.Peeks f) :
    RunTogether (L.At i x) f f (fun _ => L.At i x) L.Broken := by
  intro s t related
  obtain ⟨a, n, ran⟩ := peeks s
  have left := ran s.director
  have right := ran t.director
  rw [← L.twin related] at right
  rw [left, right]
  have := L.readings related n
  rw [L.twin related] at this
  exact .value this

end Lockstep

end PlanSearch
