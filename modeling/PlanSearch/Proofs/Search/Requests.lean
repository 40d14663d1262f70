import Mathlib.Data.List.Infix
import PlanSearch.Director
import PlanSearch.Example.Queens

/-!
# What a director answers

A director is asked for three things, in any order and any number: to take note of a notification, to
write to its solution, and to calculate the score. It runs the calculator only where the solution may
have changed, and a director that records what passes through it answers like the one it records.
-/

namespace PlanSearch

/-- What a director is asked for. -/
inductive Request (S : Type) where
  | notify (n : Notification)
  | write (f : S → S)
  | calculate

namespace Request

variable {S : Type}

/-- The notification that a request passes on. -/
def notification? : Request S → Option Notification
  | notify n => some n
  | _ => none

/-- Opens a bracket. -/
def opens (r : Request S) : Bool := r.notification?.any Notification.isBefore

/-- Closes a bracket, if one is open. -/
def closes (r : Request S) : Bool := r.notification?.any fun n => !n.isBefore

theorem closes_of_opens {r : Request S} (opening : r.opens = true) : r.closes = false := by
  cases r with
  | notify n => simpa [opens, closes, notification?] using opening
  | write f => rfl
  | calculate => rfl

/-- The solution may be another one afterwards. -/
def changes : Request S → Bool
  | notify n => n.isBefore
  | write _ => true
  | calculate => false

/-- A bracket is open after the requests: of late more brackets were opened than closed. Brackets that
are closed without having been opened do not count. -/
def Inside (history : List (Request S)) : Prop :=
  ∃ late, late <:+ history ∧ late.countP closes < late.countP opens

end Request

/-- How a kind of director handles requests. -/
structure Service (D S : Type) (sh : Shape) where
  notify : D → Notification → D
  write : D → (S → S) → D
  calculate : D → Except Fault (Score sh × D)

namespace Service

variable {D S : Type} {sh : Shape} (v : Service D S sh)

/-- The director after one request. A calculation that breaks off leaves it as it was. -/
def step (d : D) : Request S → D
  | .notify n => v.notify d n
  | .write f => v.write d f
  | .calculate => match v.calculate d with
    | .ok (_, d') => d'
    | .error _ => d

/-- The director after requests. -/
def after (d : D) (requests : List (Request S)) : D := requests.foldl v.step d

/-- What comes of the calculations, in order. -/
def answers (d : D) : List (Request S) → List (Except Fault (Score sh))
  | [] => []
  | .calculate :: rest => (v.calculate d).map Prod.fst :: answers (v.step d .calculate) rest
  | r :: rest => answers (v.step d r) rest

variable {v}

theorem step_calculate {d d' : D} {score : Score sh}
    (calculated : v.calculate d = .ok (score, d')) : v.step d .calculate = d' := by
  rw [step, calculated]

theorem step_calculate_of_error {d : D} {e : Fault} (failed : v.calculate d = .error e) :
    v.step d .calculate = d := by
  rw [step, failed]

theorem after_concat (d : D) (requests : List (Request S)) (r : Request S) :
    v.after d (requests ++ [r]) = v.step (v.after d requests) r := by
  simp [after]

theorem answers_append (d : D) (early late : List (Request S)) :
    v.answers d (early ++ late) = v.answers d early ++ v.answers (v.after d early) late := by
  induction early generalizing d with
  | nil => rfl
  | cons r early ih =>
    cases r with
    | notify n => exact ih _
    | write f => exact ih _
    | calculate => exact congrArg _ (ih _)

/-- The answer to a calculation depends on what was asked for before, and not on what comes later. -/
theorem answers_calculate (d : D) (early late : List (Request S)) :
    v.answers d (early ++ .calculate :: late) = v.answers d early ++
      (v.calculate (v.after d early)).map Prod.fst ::
        v.answers (v.after d (early ++ [.calculate])) late := by
  rw [answers_append, answers, after_concat]

end Service

variable {S : Type} {sh : Shape}

namespace Director

/-- A director calculates as a problem tells. -/
def service (p : Problem S sh) : Service (Director S sh) S sh where
  notify := notify
  write := write
  calculate d := d.calculate p

/-- The director with a score that was calculated for its solution. -/
def keep (p : Problem S sh) (d : Director S sh) (score : Score sh) : Director S sh where
  solution := p.withScore d.solution (some score)
  cached := some score
  dirty := false
  calculations := d.calculations + 1
  openBrackets := d.openBrackets

variable {p : Problem S sh} {d d' : Director S sh} {score : Score sh}

theorem calculate_of_clean (closed : d.openBrackets = 0) (clean : d.dirty = false)
    (kept : d.cached = some score) : d.calculate p = .ok (score, d) := by
  rw [calculate, if_neg (not_not.2 closed), clean, kept]

theorem calculate_of_dirty (closed : d.openBrackets = 0) (soiled : d.dirty = true) :
    d.calculate p = (p.calculate d.solution).map fun score => (score, d.keep p score) := by
  rw [calculate, if_neg (not_not.2 closed), soiled]
  cases p.calculate d.solution <;> rfl

/-- A calculation that succeeds leaves the director as it was or keeps a new score. -/
theorem calculate_eq_ok (calculated : d.calculate p = .ok (score, d')) :
    d.openBrackets = 0 ∧ (d' = d ∧ d.dirty = false ∧ d.cached = some score ∨
      d' = d.keep p score ∧ p.calculate d.solution = .ok score) := by
  rw [calculate] at calculated
  split at calculated
  · cases calculated
  rename_i closed
  refine ⟨not_not.1 closed, ?_⟩
  split at calculated
  · rename_i x clean kept
    obtain ⟨rfl, rfl⟩ := Prod.mk.inj (Except.ok.inj calculated)
    exact .inl ⟨rfl, clean, kept⟩
  · cases known : p.calculate d.solution with
    | error e =>
      rw [known] at calculated
      cases calculated
    | ok x =>
      rw [known] at calculated
      obtain ⟨rfl, rfl⟩ := Prod.mk.inj (Except.ok.inj calculated)
      exact .inr ⟨rfl, rfl⟩

/-! ## Open brackets -/

theorem openBrackets_step (r : Request S) : ((service p).step d r).openBrackets =
    if r.opens then d.openBrackets + 1 else if r.closes then d.openBrackets - 1
    else d.openBrackets := by
  cases r with
  | notify n =>
    cases before : n.isBefore <;>
      simp [Service.step, service, notify, Request.opens, Request.closes, Request.notification?,
        before]
  | write f => rfl
  | calculate =>
    change ((service p).step d .calculate).openBrackets = d.openBrackets
    cases calculated : d.calculate p with
    | error e => rw [Service.step_calculate_of_error calculated]
    | ok x =>
      rw [Service.step_calculate calculated]
      obtain ⟨-, ⟨same, -⟩ | ⟨same, -⟩⟩ := calculate_eq_ok calculated
      · rw [same]
      · rw [same, keep]

/-- So many brackets are open as were of late opened more than closed, whichever stretch of requests
shows the most. -/
theorem lt_openBrackets_iff {s : S} (history : List (Request S)) (j : Nat) :
    j < ((service p).after ({ solution := s } : Director S sh) history).openBrackets ↔
      ∃ late, late <:+ history ∧ late.countP Request.closes + j < late.countP Request.opens := by
  induction history using List.reverseRecOn generalizing j with
  | nil => simp [Service.after]
  | append_singleton history r ih =>
    have extend : (∃ late, late <:+ history ++ [r] ∧
        late.countP Request.closes + j < late.countP Request.opens) ↔
        ∃ late, late <:+ history ∧ late.countP Request.closes + (if r.closes then 1 else 0) + j <
          late.countP Request.opens + (if r.opens then 1 else 0) := by
      constructor
      · rintro ⟨late, ending, more⟩
        obtain rfl | ⟨late, rfl, shorter⟩ := List.suffix_concat_iff.1 ending
        · cases more
        · exact ⟨late, shorter, by simpa [List.countP_append, List.countP_singleton] using more⟩
      · rintro ⟨late, shorter, more⟩
        refine ⟨late ++ [r], List.suffix_concat_iff.2 (.inr ⟨late, rfl, shorter⟩), ?_⟩
        simpa [List.countP_append, List.countP_singleton] using more
    rw [extend, Service.after_concat, openBrackets_step]
    cases opening : r.opens with
    | true =>
      simp only [Request.closes_of_opens opening, if_true]
      cases j with
      | zero => exact iff_of_true (Nat.succ_pos _) ⟨[], List.nil_suffix, Nat.one_pos⟩
      | succ j => simpa [← Nat.add_assoc] using ih j
    | false =>
      cases closing : r.closes with
      | true => simpa [Nat.lt_sub_iff_add_lt, Nat.add_assoc, Nat.add_comm 1] using ih (j + 1)
      | false => simpa using ih j

theorem openBrackets_eq_zero {s : S} {history : List (Request S)} :
    ((service p).after ({ solution := s } : Director S sh) history).openBrackets = 0 ↔
      ¬Request.Inside history := by
  rw [← Nat.le_zero, ← Nat.not_lt, lt_openBrackets_iff]
  rfl

/-! ## The score that was kept -/

/-- Unless the solution may have changed, its score is known and stored in it. -/
def Keeps (p : Problem S sh) (d : Director S sh) : Prop :=
  d.dirty = false → ∃ score, d.cached = some score ∧ p.calculate d.solution = .ok score ∧
    p.score d.solution = some score

section Lawful

variable (stores : ∀ s x, p.score (p.withScore s x) = x)
variable (blind : ∀ s x, p.calculate (p.withScore s x) = p.calculate s)
include stores blind

theorem keeps_keep (known : p.calculate d.solution = .ok score) : (d.keep p score).Keeps p :=
  fun _ => ⟨score, rfl, (blind ..).trans known, stores ..⟩

theorem Keeps.step (keeps : d.Keeps p) (r : Request S) : ((service p).step d r).Keeps p := by
  cases r with
  | notify n =>
    cases before : n.isBefore with
    | true =>
      intro clean
      simp [Service.step, service, notify, before] at clean
    | false => simpa [Service.step, service, notify, before, Keeps] using keeps
  | write f =>
    rintro ⟨⟩
  | calculate =>
    cases calculated : d.calculate p with
    | error e => rwa [Service.step_calculate_of_error calculated]
    | ok x =>
      rw [Service.step_calculate calculated]
      obtain ⟨-, ⟨same, -⟩ | ⟨same, known⟩⟩ := calculate_eq_ok calculated
      · rwa [same]
      · rw [same]
        exact keeps_keep stores blind known

theorem keeps_after (s : S) (history : List (Request S)) :
    ((service p).after ({ solution := s } : Director S sh) history).Keeps p := by
  induction history using List.reverseRecOn with
  | nil => rintro ⟨⟩
  | append_singleton history r ih =>
    rw [Service.after_concat]
    exact ih.step stores blind r

end Lawful

/-- The score was calculated, and since then nothing was written and no bracket opened. -/
def Calculated (p : Problem S sh) (s : S) (history : List (Request S)) : Prop :=
  ∃ early late, history = early ++ .calculate :: late ∧
    (∃ x, ((service p).after { solution := s } early).calculate p = .ok x) ∧
    ∀ r ∈ late, r.changes = false

theorem calculated_concat {s : S} {history : List (Request S)} {r : Request S} :
    Calculated p s (history ++ [r]) ↔
      (r = .calculate ∧ ∃ x, ((service p).after { solution := s } history).calculate p = .ok x) ∨
        r.changes = false ∧ Calculated p s history := by
  constructor
  · rintro ⟨early, late, split, done, quiet⟩
    rcases List.eq_nil_or_concat late with rfl | ⟨late, last, rfl⟩
    · obtain ⟨rfl, same⟩ := List.append_inj' split rfl
      exact .inl ⟨List.singleton_inj.1 same, done⟩
    · rw [List.concat_eq_append, ← List.cons_append, ← List.append_assoc] at split
      obtain ⟨rfl, same⟩ := List.append_inj' split rfl
      obtain rfl := List.singleton_inj.1 same
      rw [List.concat_eq_append] at quiet
      exact .inr ⟨quiet r (by simp), early, late, rfl, done, fun r member => quiet r (by simp [member])⟩
  · rintro (⟨rfl, done⟩ | ⟨quiet, early, late, rfl, done, others⟩)
    · exact ⟨history, [], rfl, done, by simp⟩
    · refine ⟨early, late ++ [r], by simp, done, fun r' member => ?_⟩
      rcases List.mem_append.1 member with before | last
      · exact others r' before
      · rwa [List.mem_singleton.1 last]

theorem dirty_step (r : Request S) : ((service p).step d r).dirty = false ↔
    (r = .calculate ∧ ∃ x, d.calculate p = .ok x) ∨ r.changes = false ∧ d.dirty = false := by
  cases r with
  | notify n => cases before : n.isBefore <;>
      simp [Service.step, service, notify, Request.changes, before]
  | write f => simp [Service.step, service, write, Request.changes]
  | calculate =>
    cases calculated : d.calculate p with
    | error e =>
      rw [Service.step_calculate_of_error calculated]
      simp [Request.changes]
    | ok x =>
      rw [Service.step_calculate calculated]
      obtain ⟨-, ⟨same, clean, -⟩ | ⟨same, -⟩⟩ := calculate_eq_ok calculated
      · simp [same, clean]
      · simp [same, keep]

/-- The solution counts as unchanged exactly after a calculation that nothing has outdated. -/
theorem dirty_after {s : S} {history : List (Request S)} :
    ((service p).after ({ solution := s } : Director S sh) history).dirty = false ↔
      Calculated p s history := by
  induction history using List.reverseRecOn with
  | nil => simp [Service.after, Calculated]
  | append_singleton history r ih => rw [Service.after_concat, dirty_step, calculated_concat, ih]

end Director

/-! ## Recording -/

namespace RecordingDirector

variable {p : Problem S sh}

/-- A director that records handles requests like the one that it records. -/
def service (p : Problem S sh) : Service (RecordingDirector S sh) S sh where
  notify := notify
  write := write
  calculate d := d.calculate p

theorem calculate_eq (d : RecordingDirector S sh) : d.calculate p =
    (d.inner.calculate p).map fun x => (x.1, { d with inner := x.2 }) := by
  rw [calculate]
  cases d.inner.calculate p <;> rfl

theorem step_eq (d : RecordingDirector S sh) (r : Request S) : (service p).step d r =
    { inner := (Director.service p).step d.inner r,
      log := d.log ++ r.notification?.toList } := by
  cases r with
  | notify n => rfl
  | write f => simp [Service.step, service, Director.service, write, Request.notification?]
  | calculate =>
    have recorded := calculate_eq (p := p) d
    cases calculated : d.inner.calculate p with
    | error e =>
      rw [calculated] at recorded
      rw [Service.step_calculate_of_error recorded, Service.step_calculate_of_error calculated]
      simp [Request.notification?]
    | ok x =>
      rw [calculated] at recorded
      rw [Service.step_calculate recorded, Service.step_calculate calculated]
      simp [Request.notification?]

theorem after_eq (d : RecordingDirector S sh) (requests : List (Request S)) :
    (service p).after d requests =
      { inner := (Director.service p).after d.inner requests,
        log := d.log ++ requests.filterMap Request.notification? } := by
  induction requests using List.reverseRecOn with
  | nil => simp [Service.after]
  | append_singleton requests r ih =>
    rw [Service.after_concat, Service.after_concat, ih, step_eq]
    cases r <;> simp [Request.notification?]

theorem answers_eq (d : RecordingDirector S sh) (requests : List (Request S)) :
    (service p).answers d requests = (Director.service p).answers d.inner requests := by
  induction requests generalizing d with
  | nil => rfl
  | cons r requests ih =>
    cases r with
    | notify n => exact ih _
    | write f => exact ih _
    | calculate =>
      have answer : (d.calculate p).map Prod.fst = (d.inner.calculate p).map Prod.fst := by
        rw [calculate_eq]
        cases d.inner.calculate p <;> rfl
      have onwards := ih ((service p).step d .calculate)
      rw [step_eq] at onwards
      exact congrArg₂ List.cons answer (by rw [step_eq]; exact onwards)

end RecordingDirector

namespace Director

/-- Outside open brackets a director answers with the score of its solution and stores it there. It
runs the calculator unless it has done so and nothing was written and no bracket opened since. A
director that records requests answers in the same way, and its log is that of the notifications. -/
theorem answers_current (p : Problem S sh) (stores : ∀ s x, p.score (p.withScore s x) = x)
    (blind : ∀ s x, p.calculate (p.withScore s x) = p.calculate s) (s : S)
    (requests : List (Request S)) :
    (∀ early late, requests = early ++ .calculate :: late → ¬Request.Inside early →
      let start : Director S sh := { solution := s }
      let d := (service p).after start early
      let d' := (service p).after start (early ++ [.calculate])
      (service p).answers start requests = (service p).answers start early ++
        p.calculate d.solution :: (service p).answers d' late ∧
      (∀ score, p.calculate d.solution = .ok score → p.score d'.solution = some score ∧
        (d'.solution = d.solution ∨ d'.solution = p.withScore d.solution (some score))) ∧
      (Calculated p s early → d' = d ∧
        ∀ calculator, d.calculate { p with calculate := calculator } = d.calculate p) ∧
      (¬Calculated p s early →
        (∀ calculator, (d.calculate { p with calculate := calculator }).map Prod.fst =
          calculator d.solution) ∧
        ∀ score, p.calculate d.solution = .ok score → d'.calculations = d.calculations + 1)) ∧
    ∀ recording : RecordingDirector S sh,
      (RecordingDirector.service p).answers recording requests =
        (service p).answers recording.inner requests ∧
      (RecordingDirector.service p).after recording requests =
        { inner := (service p).after recording.inner requests,
          log := recording.log ++ requests.filterMap Request.notification? } := by
  refine ⟨?_, fun recording => ⟨recording.answers_eq requests, recording.after_eq requests⟩⟩
  rintro early late rfl outside
  intro start d d'
  have closed : d.openBrackets = 0 := openBrackets_eq_zero.2 outside
  have next : d' = (service p).step d .calculate := Service.after_concat ..
  have split := Service.answers_calculate (v := service p) start early late
  have kept := keeps_after stores blind s early
  cases clean : d.dirty with
  | false =>
    obtain ⟨score, cached, known, stored⟩ := kept clean
    have answer (q : Problem S sh) : d.calculate q = .ok (score, d) :=
      calculate_of_clean closed clean cached
    have same : d' = d := next.trans (Service.step_calculate (answer p))
    rw [split, known]
    refine ⟨congrArg _ (congrArg (· :: _) (congrArg _ (answer p))), ?_, fun _ => ⟨same, ?_⟩, ?_⟩
    · rintro _ ⟨⟩
      rw [same]
      exact ⟨stored, .inl rfl⟩
    · intro calculator
      rw [answer, answer]
    · exact fun new => absurd (dirty_after.1 clean) new
  | true =>
    have answer (q : Problem S sh) : (d.calculate q).map Prod.fst = q.calculate d.solution := by
      rw [calculate_of_dirty closed clean]
      cases q.calculate d.solution <;> rfl
    have anew (score : Score sh) (known : p.calculate d.solution = .ok score) :
        d' = d.keep p score := by
      have calculated : d.calculate p = .ok (score, d.keep p score) := by
        rw [calculate_of_dirty closed clean, known]
        rfl
      exact next.trans (Service.step_calculate calculated)
    rw [split]
    refine ⟨congrArg _ (congrArg (· :: _) (answer p)), ?_, ?_, fun _ => ⟨fun _ => answer _, ?_⟩⟩
    · intro score known
      rw [anew score known]
      exact ⟨stores .., .inr rfl⟩
    · intro done
      rw [dirty_after.2 done] at clean
      cases clean
    · intro score known
      rw [anew score known, keep]

/-! ## Two queens -/

open Example

/-- Two queens on one row. -/
def onOneRow : Queens := Queens.ofRows [some 0, some 0]

/-- The second queen is moved away between two calculations. -/
def parting : List (Request Queens) :=
  [.calculate, .notify (.beforeChange 0 1 "row"), .write fun s => Queens.row.set s 1 (some 2),
    .notify (.afterChange 0 1 "row"), .calculate]

theorem answers_current_onOneRow :
    let after := (service Queens.problem).after { solution := onOneRow }
    let recording : RecordingDirector Queens .simple := { inner := { solution := onOneRow } }
    ¬Request.Inside parting ∧ Calculated Queens.problem onOneRow parting ∧
    after (parting ++ [.calculate]) = after parting ∧ (after parting).calculations = 2 ∧
    Queens.problem.score (after (parting ++ [.calculate])).solution = some (.ofLevel 0) ∧
    (RecordingDirector.service Queens.problem).answers recording (parting ++ [.calculate]) =
      [.ok (.ofLevel (-1)), .ok (.ofLevel 0), .ok (.ofLevel 0)] ∧
    ((RecordingDirector.service Queens.problem).after recording (parting ++ [.calculate])).log =
      [.beforeChange 0 1 "row", .afterChange 0 1 "row"] := by
  have outside : ¬Request.Inside parting := by
    rw [← openBrackets_eq_zero (p := Queens.problem) (s := onOneRow)]
    decide +kernel
  have clean : Calculated Queens.problem onOneRow parting := by
    rw [← dirty_after]
    decide +kernel
  have known : Queens.problem.calculate ((service Queens.problem).after { solution := onOneRow }
      parting).solution = .ok (.ofLevel 0) := by decide +kernel
  obtain ⟨each, recorded⟩ := answers_current Queens.problem (fun _ _ => rfl) (fun _ _ => rfl)
    onOneRow (parting ++ [.calculate])
  obtain ⟨answers, stored, quiet, -⟩ := each parting [] rfl outside
  obtain ⟨same, after⟩ := recorded { inner := { solution := onOneRow } }
  refine ⟨outside, clean, (quiet clean).1, by decide +kernel, (stored _ known).1, ?_,
    congrArg RecordingDirector.log after⟩
  rw [same, answers]
  decide +kernel

end Director

end PlanSearch
