/-
Loops that write to a table, seen from one key. A loop is a fold over a list of items; `view` reads one cell of
the state. When every item either writes a value to the cell, clears it or leaves it alone, the cell after the
loop is what the last writing item wrote, or what was there before. Chains of such loops are then read off one
cell at a time.
-/
import Mathlib.Data.List.Basic

namespace DataPlane.Lib.Passes

variable {State Item V : Type} (view : State → Option V) {step : State → Item → State}

/-- A loop whose items write `written item` to the cell, if anything: the last write stands. -/
theorem view_foldl_write {written : Item → Option V}
    (hstep : ∀ state item, view (step state item) = (written item <|> view state)) (items : List Item) (state : State) :
    view (items.foldl step state) = ((items.filterMap written).getLast? <|> view state) := by
  induction items generalizing state with
  | nil => simp
  | cons item rest ih =>
    rw [List.foldl_cons, ih, hstep]
    rcases hw : written item with _ | v
    · simp [hw]
    · rw [List.filterMap_cons_some hw, List.getLast?_cons]
      rcases (rest.filterMap written).getLast? with _ | w <;> simp

/-- A loop whose items clear the cell or leave it alone. -/
theorem view_foldl_clear {clears : Item → Bool}
    (hstep : ∀ state item, view (step state item) = if clears item then none else view state)
    (items : List Item) (state : State) :
    view (items.foldl step state) = if items.any clears then none else view state := by
  induction items generalizing state with
  | nil => simp
  | cons item rest ih =>
    rw [List.foldl_cons, ih, hstep]
    rcases hc : clears item with _ | _ <;> simp [hc]

/-- Where all items that write have the same value for the cell, the order of the items is of no account. -/
theorem getLast_filterMap_const (writes : Item → Bool) (v : Option V) (items : List Item) :
    (items.filterMap fun item => if writes item then v else none).getLast? = if items.any writes then v else none := by
  induction items with
  | nil => simp
  | cons item rest ih =>
    rcases hw : writes item with _ | _
    · simpa [hw] using ih
    · rcases v with _ | v
      · simp
      · rw [List.filterMap_cons_some (by rw [hw]; rfl), List.getLast?_cons, ih]
        rcases rest.any writes with _ | _ <;> simp [hw]

end DataPlane.Lib.Passes
