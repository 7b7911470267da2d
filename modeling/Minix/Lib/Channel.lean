import Mathlib

/-!
# Channels

A channel has contents, a list in order of arrival. `Moves cur inp out nxt` says that from contents `cur` the items
`inp` went in and the items `out` came out, and `nxt` is left: nothing is lost, doubled or overtaken. Moves compose
(`Moves.trans`), and from an empty channel everything that went in has come out or is still there (`Moves.total`).
-/

namespace Minix.Lib

variable {α : Type*} {cur inp out nxt : List α}

/-- The contents and what goes in are what comes out and the new contents. -/
def Moves (cur inp out nxt : List α) : Prop := cur ++ inp = out ++ nxt

theorem Moves.refl (cur : List α) : Moves cur [] [] cur := List.append_nil cur

theorem Moves.trans {inp' out' last : List α} (h : Moves cur inp out nxt) (h' : Moves nxt inp' out' last) :
    Moves cur (inp ++ inp') (out ++ out') last := by
  unfold Moves at h h' ⊢
  rw [← List.append_assoc, h, List.append_assoc, h', List.append_assoc]

/-- What went in so far has come out or is still there. -/
theorem Moves.total {inputs outputs : List α} (h0 : inputs = outputs ++ cur) (h : Moves cur inp out nxt) :
    inputs ++ inp = outputs ++ out ++ nxt := by
  rw [h0, List.append_assoc, h, List.append_assoc]

end Minix.Lib
