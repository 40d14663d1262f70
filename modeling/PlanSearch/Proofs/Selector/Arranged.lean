import PlanSearch.Proofs.Fault
import PlanSearch.Proofs.Selector.Passes

/-!
# The passes over kept lists

A selector over a kept list yields an arrangement of the candidates of another selector, of the
solution at which the list was made. The list of a step is made when the step begins, that of a phase
when the phase begins; every pass until then yields the same candidates.
-/

namespace PlanSearch.Selector

variable {M S C : Type} {child : Selector M S C} {shown : Point S → Setting S → Prop}

/-- The kept list, and what becomes of it when a pass begins, is an arrangement of the candidates,
which are picked one after the other. -/
structure Arrangement.Arranges (how : Arrangement M S C C) (arranged : S → List C → Prop)
    (candidates : S → List C) : Prop where
  arrange : ∀ s, ∃ kept, how.arrange s (candidates s).toArray = .ok kept ∧ arranged s kept.toList
  shuffle : ∀ kept w, ∃ g kept', how.shuffle kept w = .ok (kept', ⟨g, w.memory⟩) ∧
    ∀ s, arranged s kept.toList → arranged s kept'.toList
  pick : ∀ kept cursor w, how.pick kept cursor w = .ok (kept[cursor]?, w)

section Keeping

variable {how : Arrangement M S C C} {arranged : S → List C → Prop} {candidates : S → List C}

/-- A kept list is supplied from its beginning. -/
theorem supplies_keeping (cache : CacheType) (set : Setting S)
    (picks : ∀ kept cursor w, how.pick kept cursor w = .ok (kept[cursor]?, w))
    (st : Kept child C) (begun : st.cursor = 0) :
    (child.keeping cache how).Supplies set st.items.toList st := by
  refine Supplies.of_counted
    (fun n (now : Kept child C) => now.items = st.items ∧ now.cursor = n) ?_ ⟨rfl, begun⟩
  rintro n (now : Kept child C) ⟨same, rfl⟩
  rw [Array.getElem?_toList, ← same]
  have picked (w : World M) := picks now.items now.cursor w
  cases found : now.items[now.cursor]? with
  | none =>
    refine ⟨now, fun w => ?_, by simp⟩
    simp only [keeping]
    rw [draw_bind_eq (picked w), found]
    rfl
  | some c =>
    refine ⟨{ now with cursor := now.cursor + 1 }, fun w => ?_, fun _ => ⟨rfl, rfl⟩⟩
    simp only [keeping]
    rw [draw_bind_eq (picked w), found]
    rfl

variable {cache : CacheType}
variable (serves : Serves child shown fun p s _ L => cache.filledWith p = some s → L = candidates s)
variable (fits : ∀ p set, shown p set → (candidates set.solution).length < set.patience)
variable (arranges : how.Arranges arranged candidates)
include fits arranges

/-- A list that is made anew is an arrangement of the candidates of the solution. -/
theorem Serves.fill {p : Point S} {set : Setting S} (st : Kept child C)
    (known : serves.Inv p st.child) (busy : p.first.isSome)
    (now : cache.filledWith p = some set.solution) (shows : shown p set) (w : World M) :
    ∃ st' g, st.fill how set w = .ok (st', ⟨g, w.memory⟩) ∧ serves.Inv p st'.child ∧
      arranged set.solution st'.items.toList := by
  obtain ⟨inner, g, L, passed, same, known⟩ := serves.pass known busy shows
    (fun _ _ same => same now ▸ fits p set shows) w
  obtain rfl := same now
  obtain ⟨kept, made, good⟩ := arranges.arrange set.solution
  refine ⟨{ st with child := inner, items := kept, filled := true }, g, ?_, known, good⟩
  have lifted : (Draw.lift (how.arrange set.solution (candidates set.solution).toArray) :
      Draw M (Array C)) ⟨g, w.memory⟩ = .ok (kept, ⟨g, w.memory⟩) := by
    rw [Draw.lift, made]
    rfl
  rw [Kept.fill, draw_bind_eq passed]
  dsimp only
  rw [draw_bind_eq lifted]
  rfl

/-- An arrangement of the candidates of the solution at which the list was made. -/
def servesKeeping :
    Serves (child.keeping cache how) shown fun p _ _ L => ∀ s ∈ cache.filledWith p, arranged s L where
  Inv p st := serves.Inv p st.child ∧ ∀ s ∈ cache.filledWith p, arranged s st.items.toList
  start := ⟨serves.start, fun _ none => by cases cache <;> cases none⟩
  handle {p p' hook set st} known due shows w := by
    obtain ⟨inner, g, handled, child⟩ := serves.handle known.1 due shows w
    have filled (busy : p'.first.isSome) (now : cache.filledWith p' = some set.solution) :
        ∃ st' g', Kept.fill how set { st with child := inner } ⟨g, w.memory⟩ =
          .ok (st', ⟨g', w.memory⟩) ∧ serves.Inv p' st'.child ∧
            ∀ s ∈ cache.filledWith p', arranged s st'.items.toList := by
      obtain ⟨st', g', made, known, good⟩ := Serves.fill serves fits arranges
        { st with child := inner } child busy now shows ⟨g, w.memory⟩
      refine ⟨st', g', made, known, fun s member => ?_⟩
      obtain rfl := Option.some.inj (now.symm.trans member)
      exact good
    have kept (same : cache.filledWith p' = cache.filledWith p) :
        ∀ s ∈ cache.filledWith p', arranged s st.items.toList := same ▸ known.2
    have empty (none : cache.filledWith p' = none) (items : List C) :
        ∀ s ∈ cache.filledWith p', arranged s items := by simp [none]
    simp only [keeping]
    rw [draw_bind_eq handled]
    -- The list is made, kept or dropped as the cache and the announcement say.
    cases hook <;> cases p <;> cases due <;> cases cache <;>
      first
      | exact filled rfl rfl
      | exact ⟨_, _, rfl, child, kept rfl⟩
      | exact ⟨_, _, rfl, child, empty rfl _⟩
  restart {p set st} known _ _ w := by
    obtain ⟨g, kept, shuffled, keeps⟩ := arranges.shuffle st.items w
    have good (s : S) (member : s ∈ cache.filledWith p) := keeps s (known.2 s member)
    refine ⟨{ st with items := kept, cursor := 0 }, g, kept.toList, ?_, good, ⟨known.1, good⟩,
      supplies_keeping cache set arranges.pick { st with items := kept, cursor := 0 } rfl⟩
    simp only [keeping]
    rw [draw_bind_eq shuffled]
    rfl
  next {p set st c st' w w'} known _ _ drawn := by
    simp only [keeping] at drawn
    obtain ⟨found, w₁, -, drawn⟩ := exists_of_draw_bind drawn
    cases found with
    | none =>
      cases drawn
      exact known
    | some c =>
      cases drawn
      exact known

end Keeping

/-! ## Orders -/

theorem isCached_of_checkCacheable {owner : String} {order : SelectionOrder} {cache : CacheType}
    {childNeverEnding : Bool} {u : Unit}
    (checked : checkCacheable owner order cache childNeverEnding = .ok u) :
    cache.isCached = true := by
  unfold checkCacheable at checked
  split at checked
  · cases checked
  · rename_i cached
    simpa using cached

section Orders

variable {candidates : S → List C} {cache : CacheType} {sel : Selector M S C}
variable (serves : Serves child shown fun p s _ L => cache.filledWith p = some s → L = candidates s)
variable (fits : ∀ p set, shown p set → (candidates set.solution).length < set.patience)
include serves fits

/-- A cache keeps the order. -/
theorem serves_caching (made : child.caching cache false = .ok sel) :
    cache.isCached ∧
      Nonempty (sel.Serves shown fun p _ _ L => ∀ s ∈ cache.filledWith p, L = candidates s) := by
  obtain ⟨u, checked, made⟩ := andThen_eq_ok.1 made
  obtain rfl := Except.ok.inj made
  refine ⟨isCached_of_checkCacheable checked, ⟨servesKeeping serves fits
    (?_ : Arrangement.Arranges _ (fun s L => L = candidates s) candidates)⟩⟩
  exact ⟨fun s => ⟨_, rfl, rfl⟩, fun kept w => ⟨w.generator, kept, rfl, fun _ same => same⟩,
    fun _ _ _ => rfl⟩

/-- The candidates are rearranged in every pass. -/
theorem serves_shuffling (made : child.shuffling cache = .ok sel) :
    cache.isCached ∧ Nonempty (sel.Serves shown fun p _ _ L =>
      ∀ s ∈ cache.filledWith p, L.Perm (candidates s)) := by
  obtain ⟨u, checked, made⟩ := andThen_eq_ok.1 made
  obtain rfl := Except.ok.inj made
  refine ⟨isCached_of_checkCacheable checked, ⟨servesKeeping serves fits
    (?_ : Arrangement.Arranges _ (fun s L => L.Perm (candidates s)) candidates)⟩⟩
  refine ⟨fun s => ⟨_, rfl, .refl _⟩, fun kept w => ?_, fun _ _ _ => rfl⟩
  obtain ⟨⟨kept', g⟩, shuffled⟩ := w.generator.shuffle_eq kept
  refine ⟨g, kept', ?_, fun s perm => ?_⟩
  · simp only [Draw.generate, shuffled]
  · exact (Array.perm_iff_toList_perm.1 (Random.Generator.perm_of_shuffle shuffled)).trans perm

/-- The candidates are sorted by their keys in the solution at which the list was made. -/
theorem serves_sorting {key : S → C → Except Fault Float} {direction : SortDirection}
    (total : ∀ s, ∀ c ∈ candidates s, ∃ x, key s c = .ok x)
    (made : child.sorting cache key direction = .ok sel) :
    cache.isCached ∧ Nonempty (sel.Serves shown fun p _ _ L =>
      ∀ s ∈ cache.filledWith p, SortedAs (InDirection direction (key s)) (candidates s) L) := by
  obtain ⟨u, checked, made⟩ := andThen_eq_ok.1 made
  obtain rfl := Except.ok.inj made
  refine ⟨isCached_of_checkCacheable checked, ⟨servesKeeping serves fits (?_ : Arrangement.Arranges _
    (fun s => SortedAs (InDirection direction (key s)) (candidates s)) candidates)⟩⟩
  refine ⟨fun s => ?_, fun kept w => ⟨w.generator, kept, rfl, fun _ same => same⟩, fun _ _ _ => rfl⟩
  obtain ⟨keyed, known, sorted⟩ := exists_sorted (total s) direction
  refine ⟨_, ?_, sorted⟩
  dsimp only
  rw [known]
  rfl

end Orders

end PlanSearch.Selector
