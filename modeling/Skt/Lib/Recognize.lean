import Skt.Lib.Grammar
import Skt.Lib.Ragel
import Skt.Lib.Trie

/-!
# A table automaton and the grammar it was generated from

What is left to derive behind a prefix of the input is a set of sequences of
symbols. `explore` walks through the states of an automaton together with these
sets; where it finds that every state accepts exactly when its set derives the
empty string, and that both take the same bytes, the automaton accepts what the
grammar derives.

The bytes that a set takes in the same way are one number, with a bit for each
of them.
-/

namespace Lib

namespace Ragel

variable {A : Type}

/-- The state behind a string, without the actions. -/
def Table.run (t : Table A) (q : ℕ) : List UInt8 → Option ℕ
  | [] => some q
  | c :: w =>
      match t.next false q c with
      | none => none
      | some r => t.run r.target w

def Table.accepts (t : Table A) (final : ℕ → Bool) (q : ℕ) (w : List UInt8) : Bool :=
  (t.run q w).any final

theorem Table.run_append (t : Table A) :
    ∀ (u v : List UInt8) (q : ℕ),
      t.run q (u ++ v) = (t.run q u).bind fun q' => t.run q' v
  | [], v, q => rfl
  | c :: u, v, q => by
      simp only [List.cons_append, run]
      cases t.next false q c with
      | none => rfl
      | some r => exact t.run_append u v r.target

/-- The row taken on a byte, given the rows of the state. -/
def rowAt (rows : List (Row A)) (c : ℕ) : Option (Row A) :=
  rows.find? fun r => !r.guarded && within r.on c

theorem Table.next_eq_rowAt (t : Table A) (q : ℕ) (c : UInt8) :
    t.next false q c = rowAt (t.getD q []) c.toNat := by
  unfold next rowAt Row.fits within
  rfl

end Ragel

namespace Grammar

open Ragel

variable {A N : Type} {G : N → Rule N}

/-! ## What a set of sequences starts with -/

/-- Whether one of the sequences derives the empty string, and the first bytes
of what they derive, each with what is left then. -/
def heads (G : N → Rule N) :
    ℕ → List (List N) → Option (Bool × List (List (ℕ × ℕ) × List N))
  | _, [] => some (false, [])
  | 0, _ :: _ => none
  | fuel + 1, [] :: S => (heads G fuel S).map fun r => (true, r.2)
  | fuel + 1, (n :: k) :: S =>
      match G n with
      | .byte on => (heads G fuel S).map fun r => (r.1, (on, k) :: r.2)
      | .oneOf alternatives => heads G fuel (alternatives.map (· ++ k) ++ S)

/-- What is left behind a byte. -/
def after [DecidableEq N] (moves : List (List (ℕ × ℕ) × List N)) (c : ℕ) :
    List (List N) :=
  moves.foldr (fun m S => if within m.1 c then S.insert m.2 else S) []

/-- One of the sequences derives the string. -/
def DerivesAny (G : N → Rule N) (S : List (List N)) (w : List UInt8) : Prop :=
  ∃ k ∈ S, Derives G k w

theorem derivesAny_cons {k : List N} {S : List (List N)} {w : List UInt8} :
    DerivesAny G (k :: S) w ↔ Derives G k w ∨ DerivesAny G S w := by
  simp only [DerivesAny, List.mem_cons, exists_eq_or_imp]

theorem derivesAny_expand {n : N} {k : List N} {S : List (List N)} {w : List UInt8}
    {alternatives : List (List N)} (hn : G n = .oneOf alternatives) :
    DerivesAny G (alternatives.map (· ++ k) ++ S) w ↔ DerivesAny G ((n :: k) :: S) w := by
  constructor
  · rintro ⟨l, hl, h⟩
    rcases List.mem_append.mp hl with hl | hl
    · obtain ⟨a, ha, rfl⟩ := List.mem_map.mp hl
      exact ⟨n :: k, List.mem_cons_self, .oneOf hn ha h⟩
    · exact ⟨l, List.mem_cons_of_mem _ hl, h⟩
  · rintro ⟨l, hl, h⟩
    rcases List.mem_cons.mp hl with rfl | hl
    · cases h with
      | byte hn' =>
          rw [hn] at hn'
          cases hn'
      | @oneOf _ _ a _ _ hn' ha h =>
          rw [hn] at hn'
          cases hn'
          exact ⟨a ++ k, List.mem_append_left _ (List.mem_map.mpr ⟨a, ha, rfl⟩), h⟩
    · exact ⟨l, List.mem_append_right _ hl, h⟩

theorem heads_spec :
    ∀ (fuel : ℕ) (S : List (List N)) {b : Bool}
      {moves : List (List (ℕ × ℕ) × List N)}, heads G fuel S = some (b, moves) →
      (DerivesAny G S [] ↔ b = true) ∧
      ∀ (c : UInt8) (w : List UInt8), DerivesAny G S (c :: w) ↔
        ∃ m ∈ moves, within m.1 c.toNat = true ∧ Derives G m.2 w
  | fuel, [], b, moves, h => by
      have hr : heads G fuel [] = some (false, []) := by cases fuel <;> rfl
      rw [hr] at h
      cases h
      simp [DerivesAny]
  | 0, _ :: _, b, moves, h => by cases h
  | fuel + 1, [] :: S, b, moves, h => by
      simp only [heads, Option.map_eq_some_iff] at h
      obtain ⟨⟨b', moves'⟩, hS, heq⟩ := h
      cases heq
      obtain ⟨-, hcons⟩ := heads_spec fuel S hS
      refine ⟨iff_of_true ⟨[], List.mem_cons_self, .nil⟩ rfl, fun c w => ?_⟩
      rw [derivesAny_cons, derives_nil]
      simpa using hcons c w
  | fuel + 1, (n :: k) :: S, b, moves, h => by
      simp only [heads] at h
      cases hn : G n with
      | byte on =>
          simp only [hn, Option.map_eq_some_iff] at h
          obtain ⟨⟨b', moves'⟩, hS, heq⟩ := h
          cases heq
          obtain ⟨hnil, hcons⟩ := heads_spec fuel S hS
          constructor
          · rw [derivesAny_cons, ← hnil, derives_cons]
            refine or_iff_right ?_
            rintro ⟨u, v, huv, hu, -⟩
            obtain ⟨c, rfl, -⟩ := (derives_byte hn).mp hu
            cases huv
          · intro c w
            rw [derivesAny_cons, hcons c w, List.exists_mem_cons_iff]
            refine or_congr ?_ Iff.rfl
            constructor
            · intro h
              cases h with
              | byte hn' hc hk =>
                  rw [hn] at hn'
                  cases hn'
                  exact ⟨hc, hk⟩
              | oneOf hn' =>
                  rw [hn] at hn'
                  cases hn'
            · rintro ⟨hc, hk⟩
              exact .byte hn hc hk
      | oneOf alternatives =>
          simp only [hn] at h
          obtain ⟨hnil, hcons⟩ := heads_spec fuel _ h
          refine ⟨(derivesAny_expand hn).symm.trans hnil, fun c w => ?_⟩
          exact (derivesAny_expand hn).symm.trans (hcons c w)

theorem mem_after [DecidableEq N] {moves : List (List (ℕ × ℕ) × List N)} {c : ℕ}
    {k : List N} :
    k ∈ after moves c ↔ ∃ m ∈ moves, within m.1 c = true ∧ m.2 = k := by
  induction moves with
  | nil => simp [after]
  | cons m moves ih =>
      have hstep : after (m :: moves) c =
          if within m.1 c then (after moves c).insert m.2 else after moves c := rfl
      rw [hstep, List.exists_mem_cons_iff]
      split_ifs with hm
      · rw [List.mem_insert_iff, ih]
        constructor
        · rintro (rfl | h)
          · exact Or.inl ⟨hm, rfl⟩
          · exact Or.inr h
        · rintro (⟨-, rfl⟩ | h)
          · exact Or.inl rfl
          · exact Or.inr h
      · rw [ih]
        exact (or_iff_right fun h => hm h.1).symm

/-! ## Sets of bytes as numbers -/

/-- The bytes of some ranges, one bit for each. -/
def mask (on : List (ℕ × ℕ)) : ℕ :=
  on.foldr (fun b m => m ||| ((2 ^ (b.2 + 1 - b.1) - 1) <<< b.1)) 0

theorem testBit_mask (on : List (ℕ × ℕ)) (c : ℕ) : (mask on).testBit c = within on c := by
  induction on with
  | nil => simp [mask, within]
  | cons b on ih =>
      have hstep : mask (b :: on) = mask on ||| ((2 ^ (b.2 + 1 - b.1) - 1) <<< b.1) := rfl
      rw [hstep, Nat.testBit_or, ih, Nat.testBit_shiftLeft, Nat.testBit_two_pow_sub_one, within,
        within, List.any_cons, Bool.or_comm]
      congr 1
      by_cases hlow : b.1 ≤ c
      · simp only [hlow, decide_true, Bool.true_and, decide_eq_decide]
        omega
      · simp [hlow]

/-- What is left behind the bytes of a set, each possible rest of `after` once or more. -/
def leaves [DecidableEq N] : List (List (ℕ × ℕ) × List N) → ℕ → List (List (List N))
  | [], _ => [[]]
  | m :: moves, avail =>
      let inside := avail &&& mask m.1
      let outside := avail ^^^ inside
      (if inside = 0 then [] else (leaves moves inside).map (List.insert m.2)) ++
        if outside = 0 then [] else leaves moves outside

theorem ne_zero_of_testBit {n c : ℕ} (h : n.testBit c = true) : n ≠ 0 := by
  rintro rfl
  simp at h

theorem after_mem_leaves [DecidableEq N] {c : ℕ} :
    ∀ (moves : List (List (ℕ × ℕ) × List N)) {avail : ℕ}, avail.testBit c = true →
      after moves c ∈ leaves moves avail
  | [], _, _ => List.mem_singleton_self _
  | m :: moves, avail, h => by
      have hstep : after (m :: moves) c =
          if within m.1 c then (after moves c).insert m.2 else after moves c := rfl
      rw [hstep, leaves, List.mem_append]
      cases hm : within m.1 c with
      | true =>
          have hbit : (avail &&& mask m.1).testBit c = true := by
            rw [Nat.testBit_and, h, testBit_mask, hm]
            rfl
          left
          rw [if_pos rfl, if_neg (ne_zero_of_testBit hbit)]
          exact List.mem_map_of_mem (after_mem_leaves moves hbit)
      | false =>
          have hbit : (avail ^^^ (avail &&& mask m.1)).testBit c = true := by
            rw [Nat.testBit_xor, Nat.testBit_and, h, testBit_mask, hm]
            rfl
          right
          rw [if_neg Bool.false_ne_true, if_neg (ne_zero_of_testBit hbit)]
          exact after_mem_leaves moves hbit

/-! ## States and sets side by side -/

section

variable [DecidableEq N] (G) (fuel : ℕ) (t : Table A) (final : ℕ → Bool)

/-- A state and a set agree: on the empty string, on the bytes they take, and
`P` has what they lead to. -/
def Agrees (P : ℕ → List (List N) → Prop) (q : ℕ) (S : List (List N)) : Prop :=
  ∃ moves, heads G fuel S = some (final q, moves) ∧
    ∀ c : UInt8,
      match t.next false q c with
      | none => after moves c.toNat = []
      | some r => P r.target (after moves c.toNat)

variable {G fuel t final}

theorem derivesAny_after {moves : List (List (ℕ × ℕ) × List N)} {c : ℕ} {w : List UInt8} :
    DerivesAny G (after moves c) w ↔
      ∃ m ∈ moves, within m.1 c = true ∧ Derives G m.2 w := by
  constructor
  · rintro ⟨k, hk, h⟩
    obtain ⟨m, hm, hc, rfl⟩ := mem_after.mp hk
    exact ⟨m, hm, hc, h⟩
  · rintro ⟨m, hm, hc, h⟩
    exact ⟨m.2, mem_after.mpr ⟨m, hm, hc, rfl⟩, h⟩

/-! ## One string -/

/-- Whether one of the sequences derives a string. -/
def recognize (G : N → Rule N) (fuel : ℕ) :
    List (List N) → List UInt8 → Option Bool
  | S, [] => (heads G fuel S).map Prod.fst
  | S, c :: w => (heads G fuel S).bind fun r => recognize G fuel (after r.2 c.toNat) w

theorem recognize_spec :
    ∀ (w : List UInt8) {S : List (List N)} {b : Bool}, recognize G fuel S w = some b →
      (DerivesAny G S w ↔ b = true)
  | [], S, b, h => by
      simp only [recognize, Option.map_eq_some_iff] at h
      obtain ⟨⟨b', moves⟩, hheads, rfl⟩ := h
      exact (heads_spec fuel S hheads).1
  | c :: w, S, b, h => by
      simp only [recognize, Option.bind_eq_some_iff] at h
      obtain ⟨⟨b', moves⟩, hheads, h⟩ := h
      rw [(heads_spec fuel S hheads).2 c w, ← derivesAny_after]
      exact recognize_spec w h

theorem derives_of_recognize (fuel : ℕ) {k : List N} {w : List UInt8}
    (h : recognize G fuel [k] w = some true) : Derives G k w := by
  obtain ⟨l, hl, h⟩ := (recognize_spec w h).mpr rfl
  rwa [← List.mem_singleton.mp hl]

theorem not_derives_of_recognize (fuel : ℕ) {k : List N} {w : List UInt8}
    (h : recognize G fuel [k] w = some false) : ¬Derives G k w := by
  intro hk
  have := (recognize_spec w h).mp ⟨k, List.mem_singleton_self k, hk⟩
  cases this

/-- States and sets that agree, and go on to agree, accept and derive the same
strings. -/
theorem accepts_iff_of_agrees {P : ℕ → List (List N) → Prop}
    (hP : ∀ q S, P q S → Agrees G fuel t final P q S) :
    ∀ (w : List UInt8) {q : ℕ} {S : List (List N)}, P q S →
      (t.accepts final q w = true ↔ DerivesAny G S w)
  | [], q, S, h => by
      obtain ⟨moves, hheads, -⟩ := hP q S h
      exact (heads_spec fuel S hheads).1.symm
  | c :: w, q, S, h => by
      obtain ⟨moves, hheads, hnext⟩ := hP q S h
      have hc := hnext c
      rw [(heads_spec fuel S hheads).2 c w, ← derivesAny_after]
      unfold Table.accepts Table.run
      cases hr : t.next false q c with
      | none =>
          rw [hr] at hc
          rw [hc]
          simp [DerivesAny]
      | some r =>
          rw [hr] at hc
          exact accepts_iff_of_agrees hP w hc

end

/-! ## Exploring -/

/-- The rows of the states from `q` on, by number. -/
def index : List (List (Row A)) → ℕ → Trie (List (Row A))
  | [], _ => .empty
  | rows :: t, q => (index t (q + 1)).set [] q rows

theorem get_index :
    ∀ (t : List (List (Row A))) (q i : ℕ), (index t q).get [] (q + i) = t.getD i []
  | [], q, i => by simp [index]
  | rows :: t, q, i => by
      rw [index, Trie.get_set]
      cases i with
      | zero => simp
      | succ i =>
          have h := get_index t (q + 1) i
          rw [show q + 1 + i = q + (i + 1) by omega] at h
          rw [if_neg (by omega), h]
          rfl

/-- What the bytes `avail` lead to from a state and a set, unless one of them
takes a byte that the other does not. -/
def successors [DecidableEq N] (moves : List (List (ℕ × ℕ) × List N)) :
    List (Row A) → ℕ → Option (List (ℕ × List (List N)))
  | [], avail => if avail = 0 ∨ (leaves moves avail).all List.isEmpty then some [] else none
  | r :: rows, avail =>
      if r.guarded then successors moves rows avail
      else
        let taken := avail &&& mask r.on
        match successors moves rows (avail ^^^ taken) with
        | none => none
        | some l =>
            some (if taken = 0 then l
              else (leaves moves taken).foldr (fun S l => l.insert (r.target, S)) l)

/-- Walk through the pairs in `todo` and those they lead to, but for those in
`seen`. -/
def explore [DecidableEq N] (G : N → Rule N) (fuel : ℕ)
    (table : Trie (List (Row A))) (final : ℕ → Bool) :
    ℕ → List (ℕ × List (List N)) → Trie (List (List (List N))) → Bool
  | _, [], _ => true
  | 0, _ :: _, _ => false
  | steps + 1, (q, S) :: todo, seen =>
      if (seen.get [] q).contains S then explore G fuel table final steps todo seen
      else
        match heads G fuel S with
        | none => false
        | some (b, moves) =>
            match successors moves (table.get [] q) (2 ^ 256 - 1) with
            | none => false
            | some l =>
                b == final q &&
                  explore G fuel table final steps (l ++ todo)
                    (seen.set [] q (S :: seen.get [] q))

variable [DecidableEq N] {fuel : ℕ} {t : Table A} {final : ℕ → Bool}

theorem Agrees.mono {P P' : ℕ → List (List N) → Prop} {q : ℕ} {S : List (List N)}
    (h : Agrees G fuel t final P q S) (hP : ∀ q S, P q S → P' q S) :
    Agrees G fuel t final P' q S := by
  obtain ⟨moves, hheads, hnext⟩ := h
  refine ⟨moves, hheads, fun c => ?_⟩
  have hc := hnext c
  cases hr : t.next false q c with
  | none =>
      rw [hr] at hc
      exact hc
  | some r =>
      rw [hr] at hc
      exact hP _ _ hc

theorem mem_foldr_insert {S : List (List N)} {q : ℕ} {l : List (ℕ × List (List N))} :
    ∀ {sets : List (List (List N))}, S ∈ sets →
      (q, S) ∈ sets.foldr (fun S l => l.insert (q, S)) l
  | S' :: sets, h => by
      rcases List.mem_cons.mp h with rfl | h
      · exact List.mem_insert_self
      · exact List.mem_insert_of_mem (mem_foldr_insert h)

theorem mem_foldr_of_mem {x : ℕ × List (List N)} {q : ℕ} {l : List (ℕ × List (List N))}
    (h : x ∈ l) (sets : List (List (List N))) :
    x ∈ sets.foldr (fun S l => l.insert (q, S)) l := by
  induction sets with
  | nil => exact h
  | cons S sets ih => exact List.mem_insert_of_mem ih

theorem successors_spec {moves : List (List (ℕ × ℕ) × List N)} {c : ℕ} :
    ∀ {rows : List (Row A)} {avail : ℕ} {l : List (ℕ × List (List N))},
      successors moves rows avail = some l → avail.testBit c = true →
        match rowAt rows c with
        | none => after moves c = []
        | some r => (r.target, after moves c) ∈ l
  | [], avail, l, h, hc => by
      have hleaf := after_mem_leaves moves hc
      rw [successors] at h
      split_ifs at h with hall
      have hempty := List.all_eq_true.mp (hall.resolve_left (ne_zero_of_testBit hc)) _ hleaf
      exact List.isEmpty_iff.mp hempty
  | r :: rows, avail, l, h, hc => by
      rw [successors] at h
      rw [rowAt, List.find?_cons]
      cases hguarded : r.guarded with
      | true =>
          rw [if_pos hguarded] at h
          exact successors_spec h hc
      | false =>
          rw [if_neg (by simp [hguarded])] at h
          cases hrest : successors moves rows (avail ^^^ (avail &&& mask r.on)) with
          | none => simp [hrest] at h
          | some l' =>
              simp only [hrest, Option.some.injEq] at h
              subst h
              cases hon : within r.on c with
              | true =>
                  have htaken : (avail &&& mask r.on).testBit c = true := by
                    rw [Nat.testBit_and, hc, testBit_mask, hon]
                    rfl
                  rw [if_neg (ne_zero_of_testBit htaken)]
                  exact mem_foldr_insert (after_mem_leaves moves htaken)
              | false =>
                  have hleft : (avail ^^^ (avail &&& mask r.on)).testBit c = true := by
                    rw [Nat.testBit_xor, Nat.testBit_and, hc, testBit_mask, hon]
                    rfl
                  have hspec := successors_spec hrest hleft
                  rw [rowAt] at hspec
                  simp only [Bool.not_false, Bool.and_false]
                  cases hrow : rows.find? fun r => !r.guarded && within r.on c with
                  | none =>
                      rw [hrow] at hspec
                      exact hspec
                  | some r' =>
                      rw [hrow] at hspec
                      simp only at hspec ⊢
                      split_ifs
                      · exact hspec
                      · exact mem_foldr_of_mem hspec _

/-- A pair whose successors are found agrees with them. -/
theorem agrees_of_successors {q : ℕ} {S : List (List N)}
    {moves : List (List (ℕ × ℕ) × List N)} {l : List (ℕ × List (List N))}
    (hheads : heads G fuel S = some (final q, moves))
    (hsucc : successors moves (t.getD q []) (2 ^ 256 - 1) = some l) :
    Agrees G fuel t final (fun q S => (q, S) ∈ l) q S := by
  refine ⟨moves, hheads, fun c => ?_⟩
  rw [t.next_eq_rowAt]
  refine successors_spec hsucc ?_
  rw [Nat.testBit_two_pow_sub_one]
  exact decide_eq_true c.toNat_lt

/-- What `explore` has seen and has yet to see can be completed. The invariant
is that a pair already seen agrees with pairs seen or still to be seen. -/
theorem explore_sound :
    ∀ (steps : ℕ) {todo : List (ℕ × List (List N))}
      {seen : Trie (List (List (List N)))},
      explore G fuel (index t 0) final steps todo seen = true →
      (∀ q S, S ∈ seen.get [] q →
        Agrees G fuel t final (fun q S => S ∈ seen.get [] q ∨ (q, S) ∈ todo) q S) →
      ∃ P : ℕ → List (List N) → Prop,
        (∀ q S, S ∈ seen.get [] q ∨ (q, S) ∈ todo → P q S) ∧
        ∀ q S, P q S → Agrees G fuel t final P q S
  | steps, [], seen, _, hseen => by
      refine ⟨fun q S => S ∈ seen.get [] q, fun q S h => ?_, fun q S h => ?_⟩
      · exact h.resolve_right List.not_mem_nil
      · exact (hseen q S h).mono fun q S h => h.resolve_right List.not_mem_nil
  | 0, _ :: _, _, h, _ => by cases h
  | steps + 1, (q, S) :: todo, seen, h, hseen => by
      rw [explore] at h
      split_ifs at h with hold
      · -- the pair is known
        have hmem : S ∈ seen.get [] q := by simpa using hold
        have hsub : ∀ q' S', S' ∈ seen.get [] q' ∨ (q', S') ∈ (q, S) :: todo →
            S' ∈ seen.get [] q' ∨ (q', S') ∈ todo := by
          rintro q' S' (h | h)
          · exact Or.inl h
          · rcases List.mem_cons.mp h with heq | h
            · cases heq
              exact Or.inl hmem
            · exact Or.inr h
        obtain ⟨P, hP, hagrees⟩ := explore_sound steps h fun q S h => (hseen q S h).mono hsub
        exact ⟨P, fun q S h => hP q S (hsub q S h), hagrees⟩
      · cases hheads : heads G fuel S with
        | none => simp [hheads] at h
        | some r =>
            obtain ⟨b, moves⟩ := r
            have hrows : (index t 0).get [] q = t.getD q [] := by
              simpa using get_index t 0 q
            simp only [hheads, hrows] at h
            cases hsucc : successors moves (t.getD q []) (2 ^ 256 - 1) with
            | none => simp only [hsucc, Bool.false_eq_true] at h
            | some l =>
                simp only [hsucc, Bool.and_eq_true, beq_iff_eq] at h
                obtain ⟨rfl, h⟩ := h
                have hget : ∀ q' S', S' ∈ (seen.set [] q (S :: seen.get [] q)).get [] q' ↔
                    (q', S') = (q, S) ∨ S' ∈ seen.get [] q' := by
                  intro q' S'
                  rw [Trie.get_set]
                  split_ifs with hq
                  · rw [hq, List.mem_cons, Prod.mk.injEq]
                    simp
                  · simp [hq]
                -- nothing gets lost when the pair moves over to `seen`
                have hsub : ∀ q' S', S' ∈ seen.get [] q' ∨ (q', S') ∈ (q, S) :: todo →
                    S' ∈ (seen.set [] q (S :: seen.get [] q)).get [] q' ∨
                      (q', S') ∈ l ++ todo := by
                  rintro q' S' (h | h)
                  · exact Or.inl ((hget q' S').mpr (Or.inr h))
                  · rcases List.mem_cons.mp h with heq | h
                    · exact Or.inl ((hget q' S').mpr (Or.inl heq))
                    · exact Or.inr (List.mem_append_right _ h)
                obtain ⟨P, hP, hagrees⟩ := explore_sound steps h fun q' S' h => by
                  rcases (hget q' S').mp h with heq | h
                  · cases heq
                    exact (agrees_of_successors hheads hsucc).mono
                      fun q S h => Or.inr (List.mem_append_left _ h)
                  · exact (hseen q' S' h).mono hsub
                exact ⟨P, fun q S h => hP q S (hsub q S h), hagrees⟩

/-- **The automaton accepts what the grammar derives**, from every pair that a
successful `explore` started with. -/
theorem accepts_iff_derives {steps : ℕ} {starts : List (ℕ × List (List N))}
    (h : explore G fuel (index t 0) final steps starts .empty = true) {q : ℕ} {k : List N}
    (hmem : (q, [k]) ∈ starts) (w : List UInt8) :
    t.accepts final q w = true ↔ Derives G k w := by
  obtain ⟨P, hP, hagrees⟩ := explore_sound steps h fun q S h => by simp at h
  rw [accepts_iff_of_agrees hagrees w (hP q [k] (Or.inr hmem))]
  simp [DerivesAny]

end Grammar

end Lib
