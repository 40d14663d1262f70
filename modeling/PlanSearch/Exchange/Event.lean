import PlanSearch.Exchange.Form
import PlanSearch.Search.Event

/-!
# Events as documents
-/

namespace PlanSearch.Event

variable {S : Type} {sh : Shape}

/-- An event with its name, and with those of its solutions that are new at that moment. -/
def document (solution : S → Document) : Event S sh → Document
  | bestChanged s score => form [form "best", form score, solution s]
  | solvingStarted s => form [form "solving_started", solution s]
  | solvingEnded _ early => form [form "solving_ended", form early]
  | phaseStarted i kind => form [form "phase_started", form i, form kind]
  | phaseEnded i kind => form [form "phase_ended", form i, form kind]
  | stepStarted i => form [form "step_started", form i]
  | stepEnded i score => form [form "step_ended", form i, form score]

/-- How many events there are of every kind. -/
def counts (events : List (Event S sh)) : Document :=
  form (EventKind.all.map fun k => count k events)

end PlanSearch.Event
