import Mathlib

/-!
# Sets ordered by a comparator

A `std::set` as the list of its elements in order. Elements are looked up, inserted
and erased where the comparator says; each of these is right as long as the list is
ordered by the comparator as it is at that moment.
-/

namespace Lib

namespace OrderedSet

variable {α : Type} (r : α → α → Prop) [DecidableRel r]

/-- `[begin, lower_bound(a))` -/
def below (a : α) (l : List α) : List α := l.takeWhile (r · a)

/-- `[lower_bound(a), end)` -/
def lowerBound (a : α) (l : List α) : List α := l.dropWhile (r · a)

/-- `find`: the element that is neither less nor greater, `none` for `end()`. -/
def find (a : α) (l : List α) : Option α :=
  match lowerBound r a l with
  | [] => none
  | b :: _ => if r a b then none else some b

/-- `insert`: nothing changes if there is an equivalent element. -/
def insert (a : α) : List α → List α
  | [] => [a]
  | b :: l => if r b a then b :: insert a l else if r a b then a :: b :: l else b :: l

/-- `erase` of what `find` has found. -/
def erase (a : α) (l : List α) : List α := below r a l ++ (lowerBound r a l).tail

variable {r}

theorem below_append_lowerBound (a : α) (l : List α) :
    below r a l ++ lowerBound r a l = l :=
  List.takeWhile_append_dropWhile

omit [DecidableRel r] in
/-- What holds for everything before an element it holds for is over after the first
failure. -/
theorem not_of_mem_dropWhile {p : α → Bool} {b : α} {l : List α} (h : l.Pairwise r)
    (hdown : ∀ a ∈ l, ∀ b ∈ l, r a b → p b = true → p a = true)
    (hb : b ∈ l.dropWhile p) : p b = false := by
  induction l with
  | nil => cases hb
  | cons c l ih =>
      obtain ⟨hc, hl⟩ := List.pairwise_cons.mp h
      cases hpc : p c with
      | true =>
          rw [List.dropWhile_cons_of_pos hpc] at hb
          refine ih hl (fun a ha b hb => ?_) hb
          exact hdown a (List.mem_cons_of_mem c ha) b (List.mem_cons_of_mem c hb)
      | false =>
          rw [List.dropWhile_cons_of_neg (by rw [hpc]; exact Bool.false_ne_true)] at hb
          rcases List.mem_cons.mp hb with rfl | hb
          · exact hpc
          · by_contra hpb
            rw [Bool.not_eq_false] at hpb
            rw [hdown c List.mem_cons_self b (List.mem_cons_of_mem c hb) (hc b hb) hpb] at hpc
            cases hpc

/-! ## Inserting, for a relation that is only transitive -/

theorem mem_of_mem_insert {a b : α} : ∀ {l : List α}, b ∈ insert r a l → b = a ∨ b ∈ l
  | [], h => Or.inl (List.mem_singleton.mp h)
  | c :: l, h => by
      unfold insert at h
      split_ifs at h
      · rcases List.mem_cons.mp h with rfl | h
        · exact Or.inr List.mem_cons_self
        · exact (mem_of_mem_insert h).imp_right (List.mem_cons_of_mem c)
      · exact List.mem_cons.mp h
      · exact Or.inr h

theorem insert_ordered [IsTrans α r] {a : α} {l : List α} (h : l.Pairwise r) :
    (insert r a l).Pairwise r := by
  induction l with
  | nil => exact List.pairwise_singleton r a
  | cons c l ih =>
      obtain ⟨hc, hl⟩ := List.pairwise_cons.mp h
      unfold insert
      split
      case isTrue hca =>
        refine List.pairwise_cons.mpr ⟨?_, ih hl⟩
        intro b hb
        rcases mem_of_mem_insert hb with rfl | hb
        · exact hca
        · exact hc b hb
      · split
        case isTrue hac =>
          refine List.pairwise_cons.mpr ⟨?_, h⟩
          intro b hb
          rcases List.mem_cons.mp hb with rfl | hb
          · exact hac
          · exact Trans.trans hac (hc b hb)
        · exact h

/-- What is greater than everything goes to the end. -/
theorem insert_of_forall {a : α} : ∀ {l : List α}, (∀ b ∈ l, r b a) → insert r a l = l ++ [a]
  | [], _ => rfl
  | c :: l, h => by
      rw [insert, if_pos (h c List.mem_cons_self),
        insert_of_forall fun b hb => h b (List.mem_cons_of_mem c hb)]
      rfl

section Ordered

variable [IsStrictTotalOrder α r] {a b : α} {l : List α}

/-- An element cuts the list in two. -/
theorem lowerBound_of_mem (h : l.Pairwise r) (ha : a ∈ l) :
    ∃ l₁ l₂, l = l₁ ++ a :: l₂ ∧ below r a l = l₁ ∧ lowerBound r a l = a :: l₂ := by
  obtain ⟨l₁, l₂, rfl⟩ := List.append_of_mem ha
  have hless : ∀ b ∈ l₁, decide (r b a) = true := by
    intro b hb
    exact decide_eq_true ((List.pairwise_append.mp h).2.2 b hb a List.mem_cons_self)
  have hself : decide (r a a) = false := decide_eq_false (irrefl a)
  refine ⟨l₁, l₂, rfl, ?_, ?_⟩
  · rw [below, List.takeWhile_append_of_pos hless, List.takeWhile_cons, hself]
    exact List.append_nil l₁
  · rw [lowerBound, List.dropWhile_append_of_pos hless, List.dropWhile_cons, hself]
    rfl

theorem not_lt_of_mem_lowerBound (h : l.Pairwise r) (hb : b ∈ lowerBound r a l) : ¬r b a := by
  refine of_decide_eq_false (not_of_mem_dropWhile (p := fun b => decide (r b a)) h ?_ hb)
  intro c _ d _ hcd hda
  exact decide_eq_true (Trans.trans hcd (of_decide_eq_true hda))

theorem find_of_mem (h : l.Pairwise r) (ha : a ∈ l) : find r a l = some a := by
  obtain ⟨l₁, l₂, -, -, hlower⟩ := lowerBound_of_mem h ha
  rw [find, hlower]
  exact if_neg (irrefl a)

theorem erase_of_mem (h : l.Pairwise r) (ha : a ∈ l) :
    ∃ l₁ l₂, l = l₁ ++ a :: l₂ ∧ erase r a l = l₁ ++ l₂ := by
  obtain ⟨l₁, l₂, hl, hbelow, hlower⟩ := lowerBound_of_mem h ha
  refine ⟨l₁, l₂, hl, ?_⟩
  rw [erase, hbelow, hlower]
  rfl

theorem erase_sublist (h : l.Pairwise r) (ha : a ∈ l) : (erase r a l).Sublist l := by
  obtain ⟨l₁, l₂, hl, he⟩ := erase_of_mem h ha
  rw [he, hl]
  exact (List.sublist_cons_self a l₂).append_left l₁

theorem mem_erase (h : l.Pairwise r) (ha : a ∈ l) :
    b ∈ erase r a l ↔ b ∈ l ∧ b ≠ a := by
  obtain ⟨l₁, l₂, rfl, he⟩ := erase_of_mem h ha
  have hnodup := List.nodup_middle.mp h.nodup
  have hnot := (List.nodup_cons.mp hnodup).1
  rw [he]
  constructor
  · intro hb
    refine ⟨?_, ?_⟩
    · rcases List.mem_append.mp hb with hb | hb
      · exact List.mem_append_left _ hb
      · exact List.mem_append_right _ (List.mem_cons_of_mem _ hb)
    · rintro rfl
      exact hnot hb
  · rintro ⟨hb, hne⟩
    rcases List.mem_append.mp hb with hb | hb
    · exact List.mem_append_left _ hb
    · exact List.mem_append_right _ ((List.mem_cons.mp hb).resolve_left hne)

theorem mem_insert : b ∈ insert r a l ↔ b = a ∨ b ∈ l := by
  induction l with
  | nil => exact List.mem_cons
  | cons c l ih =>
      unfold insert
      split
      · rw [List.mem_cons, ih, List.mem_cons]
        tauto
      · split
        · exact List.mem_cons
        · -- Neither is less, so the element is there.
          have hac : a = c := (trichotomous_of r a c).resolve_left ‹_› |>.resolve_right ‹_›
          subst hac
          rw [List.mem_cons]
          tauto

end Ordered

end OrderedSet

end Lib
