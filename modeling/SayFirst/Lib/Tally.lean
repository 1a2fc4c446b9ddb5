import Mathlib.Data.List.AList
import Mathlib.Algebra.BigOperators.Group.List.Basic
import Mathlib.Algebra.Group.Basic

/-!
# Counters in a dictionary

`tally m` adds up the counters of a dictionary. To insert or erase a key moves it
by what the key held.
-/

namespace SayFirst

variable {α M : Type*} [DecidableEq α] [AddCommGroup M]

/-- What the counters add up to. -/
def tally (m : AList fun _ : α => M) : M := (m.entries.map (·.2)).sum

theorem sum_kerase (a : α) : ∀ l : List (Sigma fun _ : α => M),
    ((l.kerase a).map (·.2)).sum = (l.map (·.2)).sum - (l.dlookup a).getD 0 := by
  intro l
  induction l with
  | nil => simp
  | cons e l ih =>
    by_cases h : a = e.1
    · subst h
      rw [List.kerase_cons_eq rfl, List.dlookup_cons_eq, List.map_cons, List.sum_cons,
        Option.getD_some, add_sub_cancel_left]
    · rw [List.kerase_cons_ne h, List.dlookup_cons_ne _ _ h, List.map_cons, List.sum_cons, ih,
        List.map_cons, List.sum_cons, add_sub_assoc]

theorem tally_erase (m : AList fun _ : α => M) (a : α) :
    tally (m.erase a) = tally m - (m.lookup a).getD 0 :=
  sum_kerase a m.entries

theorem tally_insert (m : AList fun _ : α => M) (a : α) (n : M) :
    tally (m.insert a n) = tally m - (m.lookup a).getD 0 + n := by
  unfold tally
  rw [AList.entries_insert, List.map_cons, List.sum_cons, sum_kerase, add_comm]
  rfl

end SayFirst
