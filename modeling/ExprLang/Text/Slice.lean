/-!
# Slices and positions with signed bounds

A bound below zero counts from the end of the sequence.  A slice bound is then
held between the two ends, so a slice always exists and is empty when its
bounds cross.  A position is not held: outside the sequence there is no item.
-/

namespace ExprLang.Text

/-- The number of items before a slice bound in a sequence of `length` items. -/
def sliceBound (length : Nat) (bound : Int) : Nat :=
  min (if bound < 0 then bound + length else bound).toNat length

def slice (items : List α) (start stop : Int) : List α :=
  (items.take (sliceBound items.length stop)).drop
    (sliceBound items.length start)

def itemAt? (items : List α) (position : Int) : Option α :=
  let counted := if position < 0 then position + items.length else position
  if counted < 0 then none else items[counted.toNat]?

def run (character : Char) (count : Int) : String :=
  String.ofList (List.replicate count.toNat character)

theorem slice_of_bounds (items : List α) {start stop : Nat}
    (hstart : start ≤ stop) (hstop : stop ≤ items.length) :
    slice items start stop = (items.take stop).drop start := by
  have hfirst : sliceBound items.length (start : Int) = start := by
    simp [sliceBound]
    omega
  have hlast : sliceBound items.length (stop : Int) = stop := by
    simp [sliceBound]
    omega
  rw [slice, hfirst, hlast]

theorem itemAt?_natCast (items : List α) (position : Nat) :
    itemAt? items position = items[position]? := by
  have hposition : ¬ (position : Int) < 0 := by omega
  simp [itemAt?, hposition]

end ExprLang.Text
