import Mathlib

/-!
# Loops over lists

Loops that may skip an element, and loops that may throw.
-/

namespace Lib

/-- A loop that skips nothing. -/
theorem mapM_map_some {α β γ : Type} {f : β → Option (Option γ)} {g : α → β} {k : α → γ} :
    ∀ {l : List α}, (∀ a ∈ l, f (g a) = some (some (k a))) →
      (l.map g).mapM f = some (l.map fun a => some (k a))
  | [], _ => rfl
  | a :: l, h => by
      rw [List.map_cons, List.mapM_cons, h a List.mem_cons_self,
        mapM_map_some fun b hb => h b (List.mem_cons_of_mem a hb)]
      rfl

theorem filterMap_id_map_some {α γ : Type} (k : α → γ) (l : List α) :
    (l.map fun a => some (k a)).filterMap id = l.map k := by
  rw [List.filterMap_map]
  exact congrFun List.filterMap_eq_map' l

theorem map_eq_self_iff {α : Type} {f : α → α} : ∀ {l : List α},
    l.map f = l ↔ ∀ a ∈ l, f a = a
  | [] => by simp
  | a :: l => by
      rw [List.map_cons, List.cons.injEq, map_eq_self_iff, List.forall_mem_cons]

/-- Dropping elements changes nothing if and only if nothing came of them. -/
theorem filterMap_filter_eq_iff {α β : Type} {v : α → Bool} {f : α → Option β} :
    ∀ {l : List α}, (l.filter v).filterMap f = l.filterMap f ↔
      ∀ x ∈ l, v x = false → f x = none
  | [] => by simp
  | x :: l => by
      rw [List.forall_mem_cons, ← filterMap_filter_eq_iff]
      cases hv : v x with
      | true =>
          rw [List.filter_cons_of_pos hv]
          cases hf : f x with
          | none => simp [List.filterMap_cons_none hf]
          | some b => simp [List.filterMap_cons_some hf]
      | false =>
          rw [List.filter_cons_of_neg (by simp [hv])]
          cases hf : f x with
          | none => simp [List.filterMap_cons_none hf]
          | some b =>
              -- a call is missing, so the lists differ in length
              have hle : ((l.filter v).filterMap f).length ≤ (l.filterMap f).length :=
                (List.filter_sublist.filterMap f).length_le
              rw [List.filterMap_cons_some hf]
              constructor
              · intro heq
                have hlen := congrArg List.length heq
                rw [List.length_cons] at hlen
                omega
              · rintro ⟨hnone, -⟩
                cases hnone rfl

end Lib
