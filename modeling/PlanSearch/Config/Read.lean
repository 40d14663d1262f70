import PlanSearch.Config.Solver
import PlanSearch.Document.Json
import PlanSearch.Document.Toml
import PlanSearch.Document.Yaml.Place

/-!
# Reading settings

Every record lists its fields in order, each with the kind of value that is wanted there. What is
missing takes its default. There is one answer to all that does not fit: no settings. The elements
that settings are read from may be those of any format.
-/

namespace PlanSearch.Config

open Readable

variable {δ : Type} {m : Type → Type} [Monad m] [MonadLiftT Option m] [Readable δ m]

/-! ## Names of alternatives -/

def cacheNames : List (String × CacheType) :=
  [("just_in_time", .justInTime), ("step", .step), ("phase", .phase)]

def orderNames : List (String × SelectionOrder) :=
  [("inherit", .inherit), ("original", .listed), ("random", .random), ("shuffled", .shuffled),
   ("sorted", .sorted), ("probabilistic", .probabilistic)]

def directionNames : List (String × SortDirection) :=
  [("ascending", .ascending), ("descending", .descending)]

def styleNames : List (String × CompositionStyle) := [("and", .and), ("or", .or)]

def pickEarlyNames : List (String × PickEarly) :=
  [("never", .never), ("first_best_score_improving", .firstBestScoreImproving),
   ("first_last_step_score_improving", .firstLastStepScoreImproving)]

def constructionNames : List (String × ConstructionKind) := [("first_fit", .firstFit)]

def modeNames : List (String × EnvironmentMode) :=
  [("non_reproducible", .nonReproducible), ("reproducible", .reproducible),
   ("full_assert", .fullAssert)]

/-- An alternative by its name. -/
def readNamed {α : Type} (names : List (String × α)) (d : δ) : m α := do
  let place ← choice (names.map Prod.fst) d
  let (_, a) ← (names[place]? : Option (String × α))
  return a

/-- The name of an alternative. -/
def nameOf {α : Type} [DecidableEq α] (names : List (String × α)) (a : α) : String :=
  ((names.find? fun (_, b) => a = b).map Prod.fst).getD ""

/-! ## Fields -/

/-- A computation on the fields of a record that have not been read yet. -/
abbrev FieldReader (δ : Type) (m : Type → Type) (α : Type) := StateT (List (Option δ)) m α

namespace FieldReader

/-- The next field, or what stands for it when it is missing. -/
def field {α : Type} (read : δ → m α) (default : α) : FieldReader δ m α := fun fields =>
  match fields with
  | [] => pure (default, [])
  | none :: rest => pure (default, rest)
  | some d :: rest => do return (← read d, rest)

/-- The next field, which may be missing. -/
def optional {α : Type} (read : δ → m α) : FieldReader δ m (Option α) :=
  field (fun d => do
    match ← present d with
    | none => return none
    | some d => return some (← read d)) none

/-- Reads a record with the given fields. -/
def run {α : Type} (names : List String) (reader : FieldReader δ m α) (d : δ) : m α := do
  let (a, _) ← StateT.run reader (← fields names d)
  return a

end FieldReader

open FieldReader

/-- Reads a list of which every item fits. -/
def readList {α : Type} (read : δ → m α) (d : δ) : m (List α) := do
  (← items d).mapM read

/-! ## Records -/

def NearbySettings.fields : List String :=
  ["origin_selector_ref", "distance_meter", "block_distribution_size_minimum",
   "block_distribution_size_maximum", "block_distribution_size_ratio",
   "block_distribution_uniform_distribution_probability", "linear_distribution_size_maximum",
   "parabolic_distribution_size_maximum", "beta_distribution_alpha", "beta_distribution_beta"]

def NearbySettings.read (d : δ) : m NearbySettings := d |> FieldReader.run fields do
  return {
    origin := ← optional text
    meter := ← optional text
    blockMinimum := ← optional count
    blockMaximum := ← optional count
    blockRatio := ← optional real
    blockUniform := ← optional real
    linearMaximum := ← optional count
    parabolicMaximum := ← optional count
    betaAlpha := ← optional real
    betaBeta := ← optional real }

def SelectorSettings.fields : List String :=
  ["id", "mimic_selector_ref", "cache_type", "selection_order", "filter", "sorter",
   "sorter_order", "probability_weight", "selected_count_limit", "nearby_selection"]

def SelectorSettings.read (d : δ) : m SelectorSettings := d |> FieldReader.run fields do
  return {
    id := ← optional text
    mimic := ← optional text
    cacheType := ← optional (readNamed cacheNames)
    order := ← optional (readNamed orderNames)
    filter := ← optional text
    sorter := ← optional text
    sorterDirection := ← optional (readNamed directionNames)
    weight := ← optional text
    limit := ← optional count
    nearby := ← optional NearbySettings.read }

def ChangeSettings.fields : List String := ["variable_name", "entity_selector", "value_selector"]

def ChangeSettings.read (d : δ) : m ChangeSettings := d |> FieldReader.run fields do
  return {
    variableName := ← optional text
    entities := ← optional SelectorSettings.read
    values := ← optional SelectorSettings.read }

def SubChainSettings.fields : List String :=
  ["variable_name", "minimum_sub_chain_size", "maximum_sub_chain_size",
   "select_reversing_move_too", "sub_chain_selector", "value_selector"]

def SubChainSettings.read (d : δ) : m SubChainSettings := d |> FieldReader.run fields do
  return {
    variableName := ← optional text
    minimumSize := ← optional count
    maximumSize := ← optional count
    reversingToo := ← optional truth
    runs := ← optional SelectorSettings.read
    values := ← optional SelectorSettings.read }

def MoveSelectorSettings.kinds : List String :=
  ["change_move_selector", "sub_chain_change_move_selector", "union_move_selector"]

/-- The settings of a kind, nested at most so deeply. -/
def MoveSelectorSettings.ofKind : Nat → Nat × Content → Option MoveSelectorSettings
  | _, (0, rest) => change <$> ChangeSettings.read rest
  | _, (1, rest) => subChainChange <$> SubChainSettings.read rest
  | depth + 1, (2, rest) =>
    let child (d : Content) : Option MoveSelectorSettings := do
      ofKind depth (← kind "type" kinds d)
    union <$> FieldReader.run ["selectors"] (field (readList child) []) rest
  | _, _ => none

def MoveSelectorSettings.read (d : δ) : m MoveSelectorSettings := do
  let (kind, rest) ← kind "type" kinds d
  liftM (ofKind (rest.depth + 1) (kind, rest))

def TerminationSettings.fields : List String :=
  ["seconds_spent_limit", "milliseconds_spent_limit", "step_count_limit",
   "unimproved_step_count_limit", "best_score_limit", "termination_composition_style",
   "terminations"]

/-- Reads settings nested at most so deeply. -/
def TerminationSettings.readWithin : Nat → δ → m TerminationSettings
  | 0, _ => liftM (none : Option TerminationSettings)
  | depth + 1, d => d |> FieldReader.run fields do
    let limits : Limits := {
      seconds := ← optional count
      milliseconds := ← optional count
      steps := ← optional count
      unimprovedSteps := ← optional count
      bestScore := ← optional text
      style := ← optional (readNamed styleNames) }
    let children ← field (readList (readWithin depth)) []
    return .node limits children

def TerminationSettings.read (d : δ) : m TerminationSettings :=
  readWithin (Readable.depth d + 1) d

def AcceptorSettings.fields : List String :=
  ["entity_tabu_size", "value_tabu_size", "move_tabu_size", "undo_move_tabu_size",
   "aspiration_enabled", "simulated_annealing_starting_temperature", "late_acceptance_size",
   "late_acceptance_hill_climbing"]

def AcceptorSettings.read (d : δ) : m AcceptorSettings := d |> FieldReader.run fields do
  return {
    entityTabu := ← optional count
    valueTabu := ← optional count
    moveTabu := ← optional count
    undoMoveTabu := ← optional count
    aspiration := ← optional truth
    startingTemperature := ← optional text
    lateAcceptance := ← optional count
    lateAcceptanceHillClimbing := ← optional truth }

def ForagerSettings.fields : List String := ["accepted_count_limit", "pick_early_type"]

def ForagerSettings.read (d : δ) : m ForagerSettings := d |> FieldReader.run fields do
  return {
    acceptedLimit := ← optional count
    pickEarly := ← optional (readNamed pickEarlyNames) }

def ConstructionSettings.fields : List String :=
  ["construction_heuristic_type", "variable_name", "termination"]

def ConstructionSettings.read (d : δ) : m ConstructionSettings := d |> FieldReader.run fields do
  return {
    kind := ← field (readNamed constructionNames) .firstFit
    variableName := ← optional text
    termination := ← optional TerminationSettings.read }

def LocalSearchSettings.fields : List String :=
  ["acceptor", "forager", "move_selector", "termination", "selected_count_limit"]

def LocalSearchSettings.read (d : δ) : m LocalSearchSettings := d |> FieldReader.run fields do
  return {
    acceptor := ← optional AcceptorSettings.read
    forager := ← optional ForagerSettings.read
    moveSelector := ← optional MoveSelectorSettings.read
    termination := ← optional TerminationSettings.read
    selectedLimit := ← optional count }

def PhaseSettings.kinds : List String := ["construction_heuristic", "local_search"]

/-- The settings of a kind. -/
def PhaseSettings.ofKind : Nat × Content → Option PhaseSettings
  | (0, rest) => construction <$> ConstructionSettings.read rest
  | (1, rest) => localSearch <$> LocalSearchSettings.read rest
  | _ => none

def PhaseSettings.read (d : δ) : m PhaseSettings := do
  liftM (ofKind (← kind "type" kinds d))

def SolverSettings.fields : List String :=
  ["environment_mode", "random_seed", "termination", "phases"]

def SolverSettings.read (d : δ) : m SolverSettings := d |> FieldReader.run fields do
  return {
    mode := ← field (readNamed modeNames) .nonReproducible
    seed := ← optional count
    termination := ← optional TerminationSettings.read
    phases := ← field (readList PhaseSettings.read) [] }

/-! ## Texts

The texts of configuration files, in each of the formats. A file that does not exist has no text. -/

namespace SolverSettings

/-- Settings in the TOML format. -/
def ofToml (s : String) : Except ConfigError SolverSettings :=
  match (Document.Toml.read s).bind SolverSettings.read with
  | some c => .ok c
  | none => .error .toml

/-- Settings in the YAML format. A text without a document holds no settings. -/
def ofYaml (s : String) : Except ConfigError SolverSettings :=
  match Document.Yaml.read SolverSettings.read s with
  | some c => .ok c
  | none => .error .yaml

/-- The text of a file, read by one of the formats. -/
def ofFile (read : String → Except ConfigError SolverSettings) :
    Option String → Except ConfigError SolverSettings
  | none => .error .noText
  | some s => read s

end SolverSettings

end PlanSearch.Config
