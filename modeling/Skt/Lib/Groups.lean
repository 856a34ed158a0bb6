import Skt.Lib.Bytes

/-!
# Groups against fixed widths

A sequence of numbers as base-128 groups is never the same sequence of bytes as with a
fixed number of bytes for each, in either byte order: there is a first number whose two
forms differ in length, and from then on the one stream stays ahead of the other.
-/

namespace Lib

/-! ## Groups -/

theorem lt_pow_length_groups (v : ℕ) : v < 128 ^ (groups v).length := by
  induction v using Nat.strongRecOn with
  | ind v ih =>
      rcases Nat.lt_or_ge v 128 with hv | hv
      · rw [groups_of_lt hv]
        exact hv
      · have hdiv := ih (v / 128) (by omega)
        rw [groups_of_le hv, List.length_cons, pow_succ]
        omega

/-- No group of a number is zero but for the number 0. -/
theorem ne_zero_of_mem_groups {v : ℕ} (hv : v ≠ 0) : ∀ b ∈ groups v, b ≠ 0 := by
  induction v using Nat.strongRecOn with
  | ind v ih =>
      have hbyte : ∀ n : ℕ, n ≠ 0 → n < 256 → UInt8.ofNat n ≠ 0 := by
        intro n hn hlt hzero
        have hnat := congrArg UInt8.toNat hzero
        rw [UInt8.toNat_ofNat', UInt8.toNat_zero] at hnat
        omega
      intro b hb
      rcases Nat.lt_or_ge v 128 with hlt | hge
      · rw [groups_of_lt hlt, List.mem_singleton] at hb
        rw [hb]
        exact hbyte v hv (by omega)
      · rw [groups_of_le hge] at hb
        rcases List.mem_cons.mp hb with rfl | hb
        · exact hbyte _ (by omega) (by omega)
        · exact ih (v / 128) (by omega) (by omega) b hb

/-- Read as bytes, the groups of a number are worth more than the number, unless there is
only one. -/
theorem le_ofLeBytes_groups (v : ℕ) :
    v ≤ ofLeBytes (groups v) ∧ (128 ≤ v → v < ofLeBytes (groups v)) := by
  induction v using Nat.strongRecOn with
  | ind v ih =>
      rcases Nat.lt_or_ge v 128 with hv | hv
      · rw [groups_of_lt hv, ofLeBytes, ofLeBytes, UInt8.toNat_ofNat']
        omega
      · have hdiv := (ih (v / 128) (by omega)).1
        rw [groups_of_le hv, ofLeBytes, UInt8.toNat_ofNat']
        omega

/-! ## Fixed widths -/

theorem ofLeBytes_append : ∀ xs ys : List UInt8,
    ofLeBytes (xs ++ ys) = ofLeBytes xs + 256 ^ xs.length * ofLeBytes ys
  | [], ys => by simp [ofLeBytes]
  | x :: xs, ys => by
      rw [List.cons_append, ofLeBytes, ofLeBytes, ofLeBytes_append xs ys, List.length_cons,
        pow_succ]
      ring

theorem leBytes_zero : ∀ k : ℕ, leBytes k 0 = List.replicate k 0
  | 0 => rfl
  | k + 1 => by
      rw [leBytes_succ, Nat.zero_div, leBytes_zero k, List.replicate_succ]
      rfl

theorem beBytes_zero (k : ℕ) : beBytes k 0 = List.replicate k 0 := by
  rw [← reverse_leBytes, leBytes_zero, List.reverse_replicate]

theorem pow_le_of_leBytes {k v i : ℕ} {b : UInt8} (hb : (leBytes k v)[i]? = some b)
    (hne : b ≠ 0) : 256 ^ i ≤ v := by
  obtain ⟨hi, rfl⟩ := List.getElem?_eq_some_iff.mp hb
  by_contra hlt
  apply hne
  simp only [leBytes, List.getElem_map, List.getElem_range]
  rw [Nat.div_eq_of_lt (Nat.not_le.mp hlt)]
  rfl

theorem head_beBytes (k v : ℕ) :
    (beBytes (k + 1) v)[0]? = some (UInt8.ofNat (v / 256 ^ k)) := by
  simp [beBytes]

/-! ## The two streams -/

/-- What is needed of a fixed width form `e` of `w` bytes: in front of a stream in which
the groups of `v` stand after the bytes `xs`, none of them zero, the form of `v` ends
before the groups do; and so it does in front of the groups alone, unless `v` is a single
group, whose form is then the group and zeros. -/
structure Outrun (w : ℕ) (e : ℕ → List UInt8) : Prop where
  pos : 0 < w
  length : ∀ v, (e v).length = w
  zero : e 0 = List.replicate w 0
  ahead : ∀ v xs rest rest', v < 256 ^ w → xs ≠ [] → (∀ b ∈ xs, b ≠ 0) →
    xs ++ groups v ++ rest = e v ++ rest' → v ≠ 0 ∧ w < xs.length + (groups v).length
  start : ∀ v rest rest', v < 256 ^ w → groups v ++ rest = e v ++ rest' →
    w < (groups v).length ∨ v < 128 ∧ e v = UInt8.ofNat v :: List.replicate (w - 1) 0

namespace Outrun

variable {w : ℕ} {e : ℕ → List UInt8}

/-- Once the groups are ahead, by bytes that are not zero, they stay ahead. -/
theorem not_ahead (h : Outrun w e) : ∀ (vs : List ℕ) (xs : List UInt8),
    (∀ v ∈ vs, v < 256 ^ w) → xs ≠ [] → (∀ b ∈ xs, b ≠ 0) →
    xs ++ vs.flatMap groups ≠ vs.flatMap e
  | [], xs, _, hne, _ => by
      intro heq
      rw [List.flatMap_nil, List.flatMap_nil, List.append_nil] at heq
      exact hne heq
  | v :: vs, xs, hlt, hne, hbytes => by
      intro heq
      rw [List.flatMap_cons, List.flatMap_cons, ← List.append_assoc] at heq
      obtain ⟨hv, hlong⟩ := h.ahead v xs _ _ (hlt v List.mem_cons_self) hne hbytes heq
      have hdrop := congrArg (List.drop w) heq
      rw [List.drop_append_of_le_length (by rw [List.length_append]; omega),
        List.drop_left' (h.length v)] at hdrop
      refine h.not_ahead vs _ (fun u hu => hlt u (List.mem_cons_of_mem v hu)) ?_ ?_ hdrop
      · intro hnil
        have hlen := congrArg List.length hnil
        rw [List.length_drop, List.length_append, List.length_nil] at hlen
        omega
      · intro b hb
        rcases List.mem_append.mp (List.mem_of_mem_drop hb) with hb | hb
        · exact hbytes b hb
        · exact ne_zero_of_mem_groups hv b hb

/-- Once the fixed width is ahead by zeros, all that follows are zeros. -/
theorem not_behind (h : Outrun w e) : ∀ (vs : List ℕ) (n : ℕ),
    vs.flatMap groups ≠ List.replicate (n + 1) 0 ++ vs.flatMap e
  | [], n => by
      intro heq
      rw [List.flatMap_nil, List.replicate_succ, List.cons_append] at heq
      cases heq
  | v :: vs, n => by
      intro heq
      rw [List.flatMap_cons, List.flatMap_cons, List.replicate_succ, List.cons_append] at heq
      have hv : v = 0 := by
        by_contra hv
        have hbytes := ne_zero_of_mem_groups hv
        cases hg : groups v with
        | nil =>
            have hlt := lt_pow_length_groups v
            rw [hg, List.length_nil, pow_zero] at hlt
            omega
        | cons b bs =>
            rw [hg, List.cons_append, List.cons.injEq] at heq
            exact hbytes b (by rw [hg]; exact List.mem_cons_self) heq.1
      subst hv
      rw [groups_of_lt (by decide), h.zero, List.singleton_append, List.cons.injEq,
        ← List.append_assoc, List.replicate_append_replicate] at heq
      obtain ⟨k, hk⟩ : ∃ k, n + w = k + 1 := ⟨n + w - 1, by have := h.pos; omega⟩
      rw [hk] at heq
      exact h.not_behind vs k heq.2

/-- The two streams are the same only if they are empty. -/
theorem groups_stream (h : Outrun w e) (hw : 1 < w) (vs : List ℕ)
    (hlt : ∀ v ∈ vs, v < 256 ^ w) (heq : vs.flatMap groups = vs.flatMap e) : vs = [] := by
  cases vs with
  | nil => rfl
  | cons v vs =>
      exfalso
      have hlt' : ∀ u ∈ vs, u < 256 ^ w := fun u hu => hlt u (List.mem_cons_of_mem v hu)
      rw [List.flatMap_cons, List.flatMap_cons] at heq
      rcases h.start v _ _ (hlt v List.mem_cons_self) heq with hlong | ⟨hv, hform⟩
      · have hdrop := congrArg (List.drop w) heq
        rw [List.drop_append_of_le_length hlong.le, List.drop_left' (h.length v)] at hdrop
        refine h.not_ahead vs _ hlt' ?_ ?_ hdrop
        · intro hnil
          have hlen := congrArg List.length hnil
          rw [List.length_drop, List.length_nil] at hlen
          omega
        · intro b hb
          have hne : v ≠ 0 := by
            rintro rfl
            rw [groups_of_lt (by decide)] at hlong
            exact absurd hlong (by rw [List.length_singleton]; omega)
          exact ne_zero_of_mem_groups hne b (List.mem_of_mem_drop hb)
      · rw [groups_of_lt hv, hform, List.singleton_append, List.cons_append,
          List.cons.injEq] at heq
        obtain ⟨k, hk⟩ : ∃ k, w - 1 = k + 1 := ⟨w - 2, by omega⟩
        rw [hk] at heq
        exact h.not_behind vs k heq.2

end Outrun

theorem pow_lt_pow_groups {v i : ℕ} (h : 256 ^ i ≤ v) : i < (groups v).length := by
  by_contra hle
  have hlt := lt_pow_length_groups v
  have hpow : 128 ^ (groups v).length ≤ 128 ^ i :=
    Nat.pow_le_pow_right (by decide) (Nat.not_lt.mp hle)
  have hbase : 128 ^ i ≤ 256 ^ i := Nat.pow_le_pow_left (by decide) i
  omega

theorem outrun_leBytes {w : ℕ} (hw : 0 < w) : Outrun w (leBytes w) where
  pos := hw
  length := length_leBytes w
  zero := leBytes_zero w
  ahead v xs rest rest' hv hne hbytes heq := by
    obtain ⟨x, xs', rfl⟩ := List.exists_cons_of_ne_nil hne
    have hat : ∀ i b, i < w → (x :: xs' ++ groups v)[i]? = some b →
        (leBytes w v)[i]? = some b := by
      intro i b hi hb
      have hleft : (x :: xs' ++ groups v ++ rest)[i]? = some b := by
        obtain ⟨hlt, -⟩ := List.getElem?_eq_some_iff.mp hb
        rw [List.getElem?_append_left hlt]
        exact hb
      rw [heq, List.getElem?_append_left (by rw [length_leBytes]; exact hi)] at hleft
      exact hleft
    have hv0 : v ≠ 0 := by
      have := pow_le_of_leBytes (hat 0 x hw rfl) (hbytes x List.mem_cons_self)
      omega
    refine ⟨hv0, ?_⟩
    by_contra hle
    -- The last group is a byte of `v` beyond what the groups are worth.
    have hlen : 0 < (groups v).length := by
      by_contra hzero
      have hlt := lt_pow_length_groups v
      rw [Nat.eq_zero_of_not_pos hzero, pow_zero] at hlt
      omega
    have hlast : (x :: xs' ++ groups v)[(x :: xs').length + ((groups v).length - 1)]? =
        some ((groups v)[(groups v).length - 1]) := by
      rw [List.getElem?_append_right (by omega), Nat.add_sub_cancel_left]
      exact List.getElem?_eq_getElem (by omega)
    have hge := pow_le_of_leBytes (hat _ _ (by omega) hlast)
      (ne_zero_of_mem_groups hv0 _ (List.getElem_mem _))
    have := pow_lt_pow_groups hge
    rw [List.length_cons] at this
    omega
  start v rest rest' hv heq := by
    rcases Nat.lt_or_ge v 128 with hlt | hge
    · refine Or.inr ⟨hlt, ?_⟩
      obtain ⟨k, rfl⟩ : ∃ k, w = k + 1 := ⟨w - 1, by omega⟩
      rw [leBytes_succ, Nat.div_eq_of_lt (by omega), leBytes_zero, Nat.add_sub_cancel]
    · left
      by_contra hle
      have htake : leBytes w v = groups v ++ (leBytes w v).drop (groups v).length := by
        have htake := congrArg (List.take (groups v).length) heq
        rw [List.take_left, List.take_append_of_le_length
          (by rw [length_leBytes]; omega)] at htake
        conv_lhs => rw [← List.take_append_drop (groups v).length (leBytes w v), ← htake]
      have hvalue := ofLeBytes_leBytes w v
      rw [htake, ofLeBytes_append, Nat.mod_eq_of_lt hv] at hvalue
      have hmore := (le_ofLeBytes_groups v).2 hge
      omega

theorem outrun_beBytes {w : ℕ} (hw : 1 < w) : Outrun w (beBytes w) where
  pos := by omega
  length := length_beBytes w
  zero := beBytes_zero w
  ahead v xs rest rest' hv hne hbytes heq := by
    obtain ⟨x, xs', rfl⟩ := List.exists_cons_of_ne_nil hne
    obtain ⟨k, rfl⟩ : ∃ k, w = k + 1 := ⟨w - 1, by omega⟩
    have hx : x = UInt8.ofNat (v / 256 ^ k) := by
      have hhead : (x :: xs' ++ groups v ++ rest)[0]? = some (UInt8.ofNat (v / 256 ^ k)) := by
        rw [heq, List.getElem?_append_left (by rw [length_beBytes]; omega), head_beBytes]
      exact Option.some.inj hhead
    have hge : 256 ^ k ≤ v := by
      by_contra hlt
      rw [Nat.div_eq_of_lt (Nat.not_le.mp hlt)] at hx
      exact hbytes x List.mem_cons_self hx
    have := pow_lt_pow_groups hge
    refine ⟨?_, ?_⟩
    · have := Nat.one_le_pow k 256 (by decide)
      omega
    · rw [List.length_cons]
      omega
  start v rest rest' hv heq := by
    obtain ⟨k, rfl⟩ : ∃ k, w = k + 1 := ⟨w - 1, by omega⟩
    have hhead : (groups v ++ rest)[0]? = some (UInt8.ofNat (v / 256 ^ k)) := by
      rw [heq, List.getElem?_append_left (by rw [length_beBytes]; omega), head_beBytes]
    rcases Nat.lt_or_ge v 128 with hlt | hge
    · refine Or.inr ⟨hlt, ?_⟩
      have hpow : 256 ^ 1 ≤ 256 ^ k := Nat.pow_le_pow_right (by decide) (by omega)
      rw [groups_of_lt hlt, Nat.div_eq_of_lt (by omega)] at hhead
      have hnat := congrArg UInt8.toNat (Option.some.inj hhead)
      rw [UInt8.toNat_ofNat', UInt8.toNat_ofNat'] at hnat
      obtain rfl : v = 0 := by omega
      rw [beBytes_zero, List.replicate_succ, Nat.add_sub_cancel]
      rfl
    · left
      by_contra hle
      rw [groups_of_le hge] at hhead
      have hnat := congrArg UInt8.toNat (Option.some.inj hhead)
      have hdiv : v / 256 ^ k < 256 := by
        rw [Nat.div_lt_iff_lt_mul (Nat.pow_pos (by decide)), ← pow_succ']
        exact hv
      rw [UInt8.toNat_ofNat', UInt8.toNat_ofNat'] at hnat
      have htop : 128 * 256 ^ k ≤ v := by
        rw [← Nat.le_div_iff_mul_le (Nat.pow_pos (by decide))]
        generalize v / 256 ^ k = t at hnat hdiv ⊢
        omega
      have hlt := lt_pow_length_groups v
      have hpow : 128 ^ (groups v).length ≤ 128 ^ (k + 1) :=
        Nat.pow_le_pow_right (by decide) (Nat.not_lt.mp hle)
      have hbase : 128 ^ k ≤ 256 ^ k := Nat.pow_le_pow_left (by decide) k
      rw [pow_succ'] at hpow
      omega

end Lib
