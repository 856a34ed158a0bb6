import Mathlib

/-!
# Grammars over bytes

A symbol of a grammar stands for one byte of a class or for one of several
sequences of symbols. `Derives` is leftmost derivation: the symbols of a
sequence are replaced from the front, and a byte is produced when its class
comes to the front.
-/

namespace Lib

/-- A byte lies in one of the ranges. -/
def within (on : List (ℕ × ℕ)) (c : ℕ) : Bool :=
  on.any fun b => decide (b.1 ≤ c) && decide (c ≤ b.2)

/-- Every range of the one list lies in a range of the other. -/
def inside (b on : List (ℕ × ℕ)) : Bool :=
  b.all fun r => on.any fun r' => decide (r'.1 ≤ r.1) && decide (r.2 ≤ r'.2)

theorem within_of_inside {b on : List (ℕ × ℕ)} {c : ℕ} (h : inside b on = true)
    (hc : within b c = true) : within on c = true := by
  simp only [inside, within, List.all_eq_true, List.any_eq_true, Bool.and_eq_true,
    decide_eq_true_eq] at *
  obtain ⟨r, hr, hlo, hhi⟩ := hc
  obtain ⟨r', hr', hlo', hhi'⟩ := h r hr
  exact ⟨r', hr', hlo'.trans hlo, hhi.trans hhi'⟩

/-- What a symbol stands for. -/
inductive Rule (N : Type) where
  | byte (on : List (ℕ × ℕ))
  | oneOf (alternatives : List (List N))
  deriving DecidableEq

namespace Grammar

variable {N : Type} {G : N → Rule N}

inductive Derives (G : N → Rule N) : List N → List UInt8 → Prop
  | nil : Derives G [] []
  | byte {n : N} {on : List (ℕ × ℕ)} {k : List N} {c : UInt8} {w : List UInt8} :
      G n = .byte on → within on c.toNat = true → Derives G k w →
      Derives G (n :: k) (c :: w)
  | oneOf {n : N} {alternatives : List (List N)} {a k : List N} {w : List UInt8} :
      G n = .oneOf alternatives → a ∈ alternatives → Derives G (a ++ k) w →
      Derives G (n :: k) w

/-! ## Sequences -/

theorem derives_nil {w : List UInt8} : Derives G [] w ↔ w = [] := by
  constructor
  · rintro ⟨⟩
    rfl
  · rintro rfl
    exact .nil

theorem Derives.append {k l : List N} {u v : List UInt8} (hu : Derives G k u)
    (hv : Derives G l v) : Derives G (k ++ l) (u ++ v) := by
  induction hu with
  | nil => exact hv
  | byte hn hc _ ih => exact .byte hn hc ih
  | oneOf hn ha _ ih =>
      rw [List.append_assoc] at ih
      exact .oneOf hn ha ih

theorem Derives.split {k l : List N} {w : List UInt8} (h : Derives G (k ++ l) w) :
    ∃ u v, w = u ++ v ∧ Derives G k u ∧ Derives G l v := by
  generalize hkl : k ++ l = s at h
  induction h generalizing k with
  | nil =>
      obtain ⟨rfl, rfl⟩ := List.append_eq_nil_iff.mp hkl
      exact ⟨[], [], rfl, .nil, .nil⟩
  | @byte n on s c w hn hc h ih =>
      rcases List.append_eq_cons_iff.mp hkl with ⟨rfl, rfl⟩ | ⟨k', rfl, rfl⟩
      · exact ⟨[], c :: w, rfl, .nil, .byte hn hc h⟩
      · obtain ⟨u, v, rfl, hu, hv⟩ := ih rfl
        exact ⟨c :: u, v, rfl, .byte hn hc hu, hv⟩
  | @oneOf n alternatives a s w hn ha h ih =>
      rcases List.append_eq_cons_iff.mp hkl with ⟨rfl, rfl⟩ | ⟨k', rfl, rfl⟩
      · exact ⟨[], w, rfl, .nil, .oneOf hn ha h⟩
      · obtain ⟨u, v, rfl, hu, hv⟩ := ih (List.append_assoc a k' l)
        exact ⟨u, v, rfl, .oneOf hn ha hu, hv⟩

theorem derives_append {k l : List N} {w : List UInt8} :
    Derives G (k ++ l) w ↔ ∃ u v, w = u ++ v ∧ Derives G k u ∧ Derives G l v := by
  constructor
  · exact Derives.split
  · rintro ⟨u, v, rfl, hu, hv⟩
    exact hu.append hv

theorem derives_cons {n : N} {k : List N} {w : List UInt8} :
    Derives G (n :: k) w ↔ ∃ u v, w = u ++ v ∧ Derives G [n] u ∧ Derives G k v :=
  derives_append (k := [n])

/-! ## Single symbols -/

theorem derives_byte {n : N} {on : List (ℕ × ℕ)} (hn : G n = .byte on) {w : List UInt8} :
    Derives G [n] w ↔ ∃ c, w = [c] ∧ within on c.toNat = true := by
  constructor
  · intro h
    cases h with
    | byte hn' hc hk =>
        rw [hn] at hn'
        cases hn'
        obtain rfl := derives_nil.mp hk
        exact ⟨_, rfl, hc⟩
    | oneOf hn' =>
        rw [hn] at hn'
        cases hn'
  · rintro ⟨c, rfl, hc⟩
    exact .byte hn hc .nil

theorem derives_oneOf {n : N} {alternatives : List (List N)}
    (hn : G n = .oneOf alternatives) {w : List UInt8} :
    Derives G [n] w ↔ ∃ a ∈ alternatives, Derives G a w := by
  constructor
  · intro h
    cases h with
    | byte hn' =>
        rw [hn] at hn'
        cases hn'
    | oneOf hn' ha h =>
        rw [hn] at hn'
        cases hn'
        rw [List.append_nil] at h
        exact ⟨_, ha, h⟩
  · rintro ⟨a, ha, h⟩
    refine .oneOf hn ha ?_
    rw [List.append_nil]
    exact h

/-! ## Repetition -/

/-- A symbol with the alternatives "nothing" and "an `m` and the symbol again". -/
theorem Derives.repeated {n m : N} (hn : G n = .oneOf [[], [m, n]]) {l : List N}
    {w : List UInt8} (h : Derives G (l ++ [n]) w) :
    ∃ (u : List UInt8) (ws : List (List UInt8)), w = u ++ ws.flatten ∧ Derives G l u ∧
      ∀ v ∈ ws, Derives G [m] v := by
  generalize hs : l ++ [n] = s at h
  induction h generalizing l with
  | nil => simp at hs
  | @byte n' on k c w hn' hc _ ih =>
      rcases List.append_eq_cons_iff.mp hs with ⟨rfl, h⟩ | ⟨l', rfl, rfl⟩
      · obtain ⟨rfl, rfl⟩ := List.cons.inj h
        rw [hn] at hn'
        cases hn'
      · obtain ⟨u, ws, rfl, hu, hws⟩ := ih rfl
        exact ⟨c :: u, ws, rfl, .byte hn' hc hu, hws⟩
  | @oneOf n' alternatives a k w hn' ha h ih =>
      rcases List.append_eq_cons_iff.mp hs with ⟨rfl, hk⟩ | ⟨l', rfl, rfl⟩
      · obtain ⟨rfl, rfl⟩ := List.cons.inj hk
        rw [hn] at hn'
        cases hn'
        simp only [List.mem_cons, List.not_mem_nil, or_false] at ha
        rcases ha with rfl | rfl
        · obtain rfl := derives_nil.mp h
          exact ⟨[], [], rfl, .nil, by simp⟩
        · obtain ⟨u, ws, rfl, hu, hws⟩ := ih (l := [m]) rfl
          exact ⟨[], u :: ws, by simp, .nil, by simpa using ⟨hu, hws⟩⟩
      · obtain ⟨u, ws, rfl, hu, hws⟩ := ih (l := a ++ l') (List.append_assoc a l' [n])
        exact ⟨u, ws, rfl, .oneOf hn' ha hu, hws⟩

theorem derives_repeated {n m : N} (hn : G n = .oneOf [[], [m, n]]) {w : List UInt8} :
    Derives G [n] w ↔ ∃ ws : List (List UInt8), w = ws.flatten ∧ ∀ v ∈ ws, Derives G [m] v := by
  constructor
  · intro h
    obtain ⟨u, ws, rfl, hu, hws⟩ := h.repeated (l := []) hn
    obtain rfl := derives_nil.mp hu
    exact ⟨ws, rfl, hws⟩
  · rintro ⟨ws, rfl, hws⟩
    induction ws with
    | nil => exact .oneOf hn List.mem_cons_self .nil
    | cons v ws ih =>
        refine .oneOf hn (List.mem_cons_of_mem _ List.mem_cons_self) ?_
        exact derives_cons.mpr ⟨v, _, rfl, hws v List.mem_cons_self,
          ih fun u hu => hws u (List.mem_cons_of_mem _ hu)⟩

theorem derives_bytes {n m : N} {on : List (ℕ × ℕ)} (hn : G n = .oneOf [[], [m, n]])
    (hm : G m = .byte on) {w : List UInt8} :
    Derives G [n] w ↔ ∀ c ∈ w, within on c.toNat = true := by
  rw [derives_repeated hn]
  constructor
  · rintro ⟨ws, rfl, hws⟩ c hc
    obtain ⟨v, hv, hc⟩ := List.mem_flatten.mp hc
    obtain ⟨c', rfl, hc'⟩ := (derives_byte hm).mp (hws v hv)
    rwa [List.mem_singleton.mp hc]
  · intro hw
    refine ⟨w.map fun c => [c], ?_, fun v hv => ?_⟩
    · induction w with
      | nil => rfl
      | cons c w ih =>
          rw [List.map_cons, List.flatten_cons, List.singleton_append,
            ← ih fun d hd => hw d (List.mem_cons_of_mem _ hd)]
    · obtain ⟨c, hc, rfl⟩ := List.mem_map.mp hv
      exact (derives_byte hm).mpr ⟨c, rfl, hw c hc⟩

/-! ## Two grammars -/

/-- Symbols `T` that only lead to symbols of `T`, whose bytes all have a
property, derive only strings of such bytes. -/
theorem Derives.forall {T : N → Prop} {P : UInt8 → Prop}
    (hbyte : ∀ {n : N} {on : List (ℕ × ℕ)} {c : UInt8}, T n → G n = .byte on →
      within on c.toNat = true → P c)
    (hone : ∀ {n : N} {alternatives : List (List N)} {a : List N}, T n →
      G n = .oneOf alternatives → a ∈ alternatives → ∀ m ∈ a, T m)
    {k : List N} {w : List UInt8} (h : Derives G k w) (hk : ∀ n ∈ k, T n) :
    ∀ c ∈ w, P c := by
  induction h with
  | nil => exact fun c hc => absurd hc List.not_mem_nil
  | @byte n on k c w hn hc _ ih =>
      intro d hd
      rcases List.mem_cons.mp hd with rfl | hd
      · exact hbyte (hk n List.mem_cons_self) hn hc
      · exact ih (fun m hm => hk m (List.mem_cons_of_mem _ hm)) d hd
  | @oneOf n alternatives a k w hn ha _ ih =>
      apply ih
      intro m hm
      rcases List.mem_append.mp hm with hm | hm
      · exact hone (hk n List.mem_cons_self) hn ha m hm
      · exact hk m (List.mem_cons_of_mem _ hm)

/-- The symbols `T` only lead to each other, and their bytes lie in `on`. -/
def closed [DecidableEq N] (G : N → Rule N) (T : List N) (on : List (ℕ × ℕ)) : Bool :=
  T.all fun n =>
    match G n with
    | .byte b => inside b on
    | .oneOf alternatives => alternatives.all fun a => a.all (T.contains ·)

theorem Derives.within_of_closed [DecidableEq N] {T : List N} {on : List (ℕ × ℕ)}
    (hT : closed G T on = true) {k : List N} {w : List UInt8} (h : Derives G k w)
    (hk : ∀ n ∈ k, n ∈ T) : ∀ c ∈ w, within on c.toNat = true := by
  refine h.forall (T := (· ∈ T)) (P := fun c => within on c.toNat = true) ?_ ?_ hk
  · intro n b c hn hb hc
    have hall := List.all_eq_true.mp hT n hn
    rw [hb] at hall
    exact within_of_inside hall hc
  · intro n alternatives a hn ho ha m hm
    have hall := List.all_eq_true.mp hT n hn
    simp only [ho, List.all_eq_true] at hall
    simpa using hall a ha m hm

/-- Two grammars that agree on such symbols derive the same from them. -/
theorem Derives.transfer [DecidableEq N] {H : N → Rule N} {T : List N} {on : List (ℕ × ℕ)}
    (hT : closed G T on = true) (hsame : ∀ n ∈ T, G n = H n) {k : List N} {w : List UInt8}
    (h : Derives G k w) (hk : ∀ n ∈ k, n ∈ T) : Derives H k w := by
  induction h with
  | nil => exact .nil
  | @byte n on k c w hn hc _ ih =>
      refine .byte ?_ hc (ih fun m hm => hk m (List.mem_cons_of_mem _ hm))
      rw [← hsame n (hk n List.mem_cons_self)]
      exact hn
  | @oneOf n alternatives a k w hn ha _ ih =>
      have hmem := hk n List.mem_cons_self
      have hall := List.all_eq_true.mp hT n hmem
      simp only [hn, List.all_eq_true] at hall
      refine .oneOf ((hsame n hmem).symm.trans hn) ha (ih fun m hm => ?_)
      rcases List.mem_append.mp hm with hm | hm
      · simpa using hall a ha m hm
      · exact hk m (List.mem_cons_of_mem _ hm)

/-- A derivation is one of another grammar that has the same alternatives or more
and, for the bytes that are there, as large classes. -/
theorem Derives.mono {H : N → Rule N} {P : UInt8 → Prop}
    (hbyte : ∀ {n : N} {on : List (ℕ × ℕ)} {c : UInt8}, G n = .byte on →
      within on c.toNat = true → P c →
      ∃ on', H n = .byte on' ∧ within on' c.toNat = true)
    (hone : ∀ {n : N} {alternatives : List (List N)}, G n = .oneOf alternatives →
      ∃ alternatives', H n = .oneOf alternatives' ∧ alternatives ⊆ alternatives')
    {k : List N} {w : List UInt8} (h : Derives G k w) (hw : ∀ c ∈ w, P c) :
    Derives H k w := by
  induction h with
  | nil => exact .nil
  | @byte n on k c w hn hc _ ih =>
      obtain ⟨on', hn', hc'⟩ := hbyte hn hc (hw c List.mem_cons_self)
      exact .byte hn' hc' (ih fun d hd => hw d (List.mem_cons_of_mem _ hd))
  | oneOf hn ha _ ih =>
      obtain ⟨alternatives', hn', hsub⟩ := hone hn
      exact .oneOf hn' (hsub ha) (ih hw)

/-! ## Templates -/

/-- A string that arises from a template: each `hole` is filled with a string
that has a property. -/
inductive Fills (P : List UInt8 → Prop) (hole : UInt8) : List UInt8 → List UInt8 → Prop
  | nil : Fills P hole [] []
  | keep {c : UInt8} {t w : List UInt8} : c ≠ hole → Fills P hole t w →
      Fills P hole (c :: t) (c :: w)
  | fill {x t w : List UInt8} : P x → Fills P hole t w → Fills P hole (hole :: t) (x ++ w)

section Templates

variable {H : N → Rule N} {X : N} {hole : UInt8} {T : N → Prop}

/-- `H` is the grammar `G` with a byte of its own for the symbol `X`, as far as
the symbols `T` go. -/
structure Template (G H : N → Rule N) (X : N) (hole : UInt8) (T : N → Prop) : Prop where
  hole_rule : H X = .byte [(hole.toNat, hole.toNat)]
  same : ∀ n, n ≠ X → G n = H n
  free : ∀ {n on}, T n → n ≠ X → G n = .byte on → within on hole.toNat = false
  closed : ∀ {n alternatives a}, T n → G n = .oneOf alternatives → a ∈ alternatives →
    ∀ m ∈ a, T m

/-- The front of a sequence derives a part of the string, the rest a template
for the rest. -/
theorem Template.split (hGH : Template G H X hole T) {s l k : List N} {w : List UInt8}
    (h : Derives G s w) (hs : s = l ++ k) (hT : ∀ n ∈ s, T n) :
    ∃ u v t, w = u ++ v ∧ Derives G l u ∧ Derives H k t ∧ Fills (Derives G [X]) hole t v := by
  have hhole : within [(hole.toNat, hole.toNat)] hole.toNat = true := by simp [within]
  induction h generalizing l k with
  | nil =>
      obtain ⟨rfl, rfl⟩ := List.append_eq_nil_iff.mp hs.symm
      exact ⟨[], [], [], rfl, .nil, .nil, .nil⟩
  | @byte n on s c w hn hc _ ih =>
      have hTn := hT n List.mem_cons_self
      have hTs : ∀ m ∈ s, T m := fun m hm => hT m (List.mem_cons_of_mem _ hm)
      rcases List.append_eq_cons_iff.mp hs.symm with ⟨rfl, rfl⟩ | ⟨l', rfl, rfl⟩
      · obtain ⟨u, v, t, rfl, hu, ht, hfill⟩ := ih (l := []) rfl hTs
        obtain rfl := derives_nil.mp hu
        by_cases hnX : n = X
        · subst hnX
          exact ⟨[], c :: v, hole :: t, rfl, .nil, .byte hGH.hole_rule hhole ht,
            .fill (x := [c]) (.byte hn hc .nil) hfill⟩
        · have hne : c ≠ hole := by
            rintro rfl
            rw [hGH.free hTn hnX hn] at hc
            cases hc
          exact ⟨[], c :: v, c :: t, rfl, .nil,
            .byte ((hGH.same n hnX).symm.trans hn) hc ht, .keep hne hfill⟩
      · obtain ⟨u, v, t, rfl, hu, ht, hfill⟩ := ih rfl hTs
        exact ⟨c :: u, v, t, rfl, .byte hn hc hu, ht, hfill⟩
  | @oneOf n alternatives a s w hn ha _ ih =>
      have hTs : ∀ m ∈ a ++ s, T m := by
        intro m hm
        rcases List.mem_append.mp hm with hm | hm
        · exact hGH.closed (hT n List.mem_cons_self) hn ha m hm
        · exact hT m (List.mem_cons_of_mem _ hm)
      rcases List.append_eq_cons_iff.mp hs.symm with ⟨rfl, rfl⟩ | ⟨l', rfl, rfl⟩
      · by_cases hnX : n = X
        · subst hnX
          obtain ⟨u, v, t, rfl, hu, ht, hfill⟩ := ih (l := a) rfl hTs
          exact ⟨[], u ++ v, hole :: t, rfl, .nil, .byte hGH.hole_rule hhole ht,
            .fill ((derives_oneOf hn).mpr ⟨a, ha, hu⟩) hfill⟩
        · obtain ⟨u, v, t, rfl, hu, ht, hfill⟩ := ih (l := []) rfl hTs
          obtain rfl := derives_nil.mp hu
          exact ⟨[], v, t, rfl, .nil, .oneOf ((hGH.same n hnX).symm.trans hn) ha ht, hfill⟩
      · obtain ⟨u, v, t, rfl, hu, ht, hfill⟩ :=
          ih (l := a ++ l') (List.append_assoc a l' k).symm hTs
        exact ⟨u, v, t, rfl, .oneOf hn ha hu, ht, hfill⟩

theorem Template.derives (hGH : Template G H X hole T) {k : List N} {t w : List UInt8}
    (ht : Derives H k t) (hfill : Fills (Derives G [X]) hole t w) (hT : ∀ n ∈ k, T n) :
    Derives G k w := by
  induction ht generalizing w with
  | nil =>
      cases hfill
      exact .nil
  | @byte n on k c t hn hc _ ih =>
      have hTn := hT n List.mem_cons_self
      have hTk : ∀ m ∈ k, T m := fun m hm => hT m (List.mem_cons_of_mem _ hm)
      by_cases hnX : n = X
      · subst hnX
        rw [hGH.hole_rule] at hn
        cases hn
        have hce : c = hole := by
          simp only [within, List.any_cons, List.any_nil, Bool.or_false, Bool.and_eq_true,
            decide_eq_true_eq] at hc
          exact UInt8.toNat_inj.mp (le_antisymm hc.2 hc.1)
        subst hce
        cases hfill with
        | keep hne _ => exact absurd rfl hne
        | fill hx hfill => exact derives_cons.mpr ⟨_, _, rfl, hx, ih hfill hTk⟩
      · have hGn := (hGH.same n hnX).trans hn
        cases hfill with
        | keep _ hfill => exact .byte hGn hc (ih hfill hTk)
        | fill hx hfill =>
            rw [hGH.free hTn hnX hGn] at hc
            cases hc
  | @oneOf n alternatives a k t hn ha _ ih =>
      have hnX : n ≠ X := by
        rintro rfl
        rw [hGH.hole_rule] at hn
        cases hn
      have hGn := (hGH.same n hnX).trans hn
      refine .oneOf hGn ha (ih hfill fun m hm => ?_)
      rcases List.mem_append.mp hm with hm | hm
      · exact hGH.closed (hT n List.mem_cons_self) hGn ha m hm
      · exact hT m (List.mem_cons_of_mem _ hm)

/-- **Substitution.** A grammar that has a byte of its own for a symbol derives the
templates of what the grammar with the symbol derives. -/
theorem Template.derives_iff (hGH : Template G H X hole T) {k : List N} (hT : ∀ n ∈ k, T n)
    {w : List UInt8} :
    Derives G k w ↔ ∃ t, Derives H k t ∧ Fills (Derives G [X]) hole t w := by
  constructor
  · intro h
    obtain ⟨u, v, t, rfl, hu, ht, hfill⟩ := hGH.split h (l := []) rfl hT
    obtain rfl := derives_nil.mp hu
    exact ⟨t, ht, hfill⟩
  · rintro ⟨t, ht, hfill⟩
    exact hGH.derives ht hfill hT

/-- A template without a hole is the string itself. -/
theorem Fills.eq_of_not_mem {P : List UInt8 → Prop} {t w : List UInt8}
    (h : Fills P hole t w) (ht : hole ∉ t) : t = w := by
  induction h with
  | nil => rfl
  | keep _ _ ih => rw [ih fun hmem => ht (List.mem_cons_of_mem _ hmem)]
  | fill _ _ _ => exact absurd List.mem_cons_self ht

/-- A template with one hole. -/
theorem Fills.of_count {P : List UInt8 → Prop} {t w : List UInt8} (h : Fills P hole t w)
    (ht : t.count hole = 1) :
    ∃ pre x post, t = pre ++ hole :: post ∧ w = pre ++ x ++ post ∧ P x := by
  induction h with
  | nil => simp at ht
  | @keep c t w hne _ ih =>
      rw [List.count_cons_of_ne hne] at ht
      obtain ⟨pre, x, post, rfl, rfl, hx⟩ := ih ht
      exact ⟨c :: pre, x, post, rfl, rfl, hx⟩
  | @fill x t w hx hfill _ =>
      rw [List.count_cons_self, Nat.add_eq_right] at ht
      obtain rfl := hfill.eq_of_not_mem (List.count_eq_zero.mp ht)
      exact ⟨[], x, t, rfl, rfl, hx⟩

theorem fills_append {P : List UInt8 → Prop} {pre x post : List UInt8} (hx : P x)
    (hpre : hole ∉ pre) (hpost : hole ∉ post) :
    Fills P hole (pre ++ hole :: post) (pre ++ x ++ post) := by
  have hrefl : ∀ {v : List UInt8}, hole ∉ v → Fills P hole v v := by
    intro v hv
    induction v with
    | nil => exact .nil
    | cons c v ih =>
        rw [List.mem_cons, not_or] at hv
        exact .keep (Ne.symm hv.1) (ih hv.2)
  induction pre with
  | nil => exact .fill hx (hrefl hpost)
  | cons c pre ih =>
      rw [List.mem_cons, not_or] at hpre
      exact .keep (Ne.symm hpre.1) (ih hpre.2)

/-- How often a byte occurs: at most as often as the weights of the symbols
allow. -/
theorem Derives.count_le [DecidableEq N] {T : List N} (weight : N → ℕ)
    (hT : T.all (fun n =>
      match G n with
      | .byte on => !within on hole.toNat || decide (1 ≤ weight n)
      | .oneOf alternatives => alternatives.all fun a =>
          decide ((a.map weight).sum ≤ weight n) && a.all (T.contains ·)) = true)
    {k : List N} {w : List UInt8} (h : Derives G k w) (hk : ∀ n ∈ k, n ∈ T) :
    w.count hole ≤ (k.map weight).sum := by
  induction h with
  | nil => exact le_refl _
  | @byte n on k c w hn hc _ ih =>
      have ih := ih fun m hm => hk m (List.mem_cons_of_mem _ hm)
      rw [List.map_cons, List.sum_cons, List.count_cons]
      split_ifs with heq
      · obtain rfl : c = hole := by simpa using heq
        have hcheck := List.all_eq_true.mp hT n (hk n List.mem_cons_self)
        simp only [hn, hc, Bool.not_true, Bool.false_or, decide_eq_true_eq] at hcheck
        omega
      · omega
  | @oneOf n alternatives a k w hn ha _ ih =>
      have hcheck := List.all_eq_true.mp hT n (hk n List.mem_cons_self)
      simp only [hn, List.all_eq_true, Bool.and_eq_true, decide_eq_true_eq] at hcheck
      obtain ⟨hle, hmem⟩ := hcheck a ha
      have ih := ih fun m hm => by
        rcases List.mem_append.mp hm with hm | hm
        · simpa using hmem m hm
        · exact hk m (List.mem_cons_of_mem _ hm)
      rw [List.map_append, List.sum_append] at ih
      rw [List.map_cons, List.sum_cons]
      omega

end Templates

end Grammar

end Lib
