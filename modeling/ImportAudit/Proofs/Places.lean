/-!
# Places of a list

A list is often known by one of its places: what is in front of it, what is there, and what is
behind. Two such views of one list are compared here, and what is there is replaced by something
else.
-/

namespace ImportAudit

variable {α : Type}

/-- Of two places of a list one comes first, or they are the same. -/
theorem place_cases
    {front other back otherBack : List α} {a b : α}
    (same : front ++ a :: back = other ++ b :: otherBack) :
    a ∈ otherBack ∨ (a = b ∧ back = otherBack) ∨ b ∈ back := by
  rcases List.append_eq_append_iff.mp same with ⟨middle, _, tail⟩ | ⟨middle, _, tail⟩
  · cases middle with
    | nil => exact Or.inr (Or.inl (List.cons.inj tail))
    | cons first rest =>
      refine Or.inr (Or.inr ?_)
      rw [(List.cons.inj tail).2]
      exact List.mem_append_right rest List.mem_cons_self
  · cases middle with
    | nil =>
      obtain ⟨sameItem, sameBack⟩ := List.cons.inj tail
      exact Or.inr (Or.inl ⟨sameItem.symm, sameBack.symm⟩)
    | cons first rest =>
      refine Or.inl ?_
      rw [(List.cons.inj tail).2]
      exact List.mem_append_right rest List.mem_cons_self

/-- What is at other places stays when one place is given something else. -/
theorem mem_of_mem_replaced
    {front back : List α} {a b c : α} (member : c ∈ front ++ a :: back) (differs : c ≠ a) :
    c ∈ front ++ b :: back := by
  rcases List.mem_append.mp member with inFront | rest
  · exact List.mem_append_left _ inFront
  · rcases List.mem_cons.mp rest with same | inBack
    · exact absurd same differs
    · exact List.mem_append_right _ (List.mem_cons_of_mem _ inBack)

theorem getElem?_replaced (front back : List α) (a b : α) (place : Nat) :
    (front ++ b :: back)[place]? =
      if place = front.length then some b else (front ++ a :: back)[place]? := by
  split
  · rename_i here
    rw [here, List.getElem?_append_right (Nat.le_refl _), Nat.sub_self]
    rfl
  · rename_i elsewhere
    rw [List.getElem?_append, List.getElem?_append]
    split
    · rfl
    · obtain ⟨distance, isDistance⟩ : ∃ distance, place - front.length = distance + 1 :=
        ⟨place - front.length - 1, by omega⟩
      rw [isDistance]
      rfl

@[simp]
theorem getElem?_place (front back : List α) (a : α) :
    (front ++ a :: back)[front.length]? = some a := by
  rw [getElem?_replaced front back a, if_pos rfl]

theorem countP_place (holds : α → Bool) (front back : List α) (a : α) :
    (front ++ a :: back).countP holds =
      front.countP holds + back.countP holds + (holds a).toNat := by
  rw [List.countP_append, List.countP_cons, Nat.add_assoc]
  cases holds a <;> rfl

end ImportAudit
