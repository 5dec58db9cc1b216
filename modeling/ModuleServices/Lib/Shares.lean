import Mathlib

/-!
# Shares of a sum over a list

Each member of a list has a share of a sum. What one member's change does to it, with the others'
shares left together.
-/

namespace Shares

variable {β : Type*} {members : List β} {id : Nat} {old : β}

/-- The sum, with one member's share apart. -/
theorem sum_eraseIdx (share : β → Nat) (hid : members[id]? = some old) :
    (members.map share).sum = ((members.eraseIdx id).map share).sum + share old := by
  induction members generalizing id with
  | nil => cases hid
  | cons member members ih =>
    cases id with
    | zero =>
      cases hid
      simp only [List.eraseIdx_cons_zero, List.map_cons, List.sum_cons]
      omega
    | succ id =>
      have := ih (by simpa using hid)
      simp only [List.eraseIdx_cons_succ, List.map_cons, List.sum_cons]
      omega

theorem sum_set_eraseIdx (share : β → Nat) {new : β} (hid : members[id]? = some old) :
    ((members.set id new).map share).sum
      = ((members.eraseIdx id).map share).sum + share new := by
  have hlt : id < members.length := (List.getElem?_eq_some_iff.mp hid).1
  have hnew : (members.set id new)[id]? = some new := by simp [hlt]
  have herase : (members.set id new).eraseIdx id = members.eraseIdx id := List.eraseIdx_set_eq
  rw [sum_eraseIdx share hnew, herase]

/-- One member changes its share. -/
theorem sum_set (share : β → Nat) (new : β) (hid : members[id]? = some old) :
    ((members.set id new).map share).sum + share old = (members.map share).sum + share new := by
  rw [sum_set_eraseIdx share hid, sum_eraseIdx share hid]
  omega

end Shares
