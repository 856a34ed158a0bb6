import Skt.Address.IPv6
import Skt.Lib.Decimal

/-!
# IPv6 addresses as text

`IPv6Address::insert` writes the eight groups of an address, and `::` for the first zeros
among them. RFC 4291 says what such a text stands for; `insert_decodes` is that it stands
for the address.
-/

namespace Skt

namespace IPv6Address

open Lib Lib.CString

/-! ## `insert` -/

/-- `((uint16_t*)s6_addr)[i]`, as the machine reads it. -/
def word (host : Endian) (v : In6Addr) (i : Fin 8) : ℕ :=
  have hlow : 2 * i.val < 16 := by omega
  have hhigh : 2 * i.val + 1 < 16 := by omega
  match host with
  | .little => 256 * v[2 * i.val + 1].toNat + v[2 * i.val].toNat
  | .big => 256 * v[2 * i.val].toNat + v[2 * i.val + 1].toNat

/-- The loop over the groups behind the group `prev`, with the last value of `used_zeros`. -/
def insertGroups (host : Endian) : List ℕ → Option ℕ → Bool → List UInt8 × Bool
  | [], _, used => ([], used)
  | g :: gs, prev, used =>
      if g = 0 ∧ used = false then insertGroups host gs (some g) used
      else
        let zeros := decide (prev = some 0) && !used
        let rest := insertGroups host gs (some g) (used || zeros)
        ((if zeros then bytes ":" else []) ++ (if prev.isSome then bytes ":" else [])
          ++ hexadecimal (swap16 host g) ++ rest.1, rest.2)

def groupsText (host : Endian) (gs : List ℕ) : List UInt8 :=
  let x := insertGroups host gs none false
  x.1 ++ if x.2 = false ∧ gs.getLast? = some 0 then bytes "::" else []

def insert (host : Endian) (a : SockaddrIn6) : List UInt8 :=
  bytes "[" ++ groupsText host (List.ofFn (word host a.addr)) ++ bytes "]:"
    ++ decimal (swap16 host a.port.toNat)

/-! ## RFC 4291 -/

/-- A group: one to four hexadecimal digits. -/
def h16 (t : List UInt8) : Option ℕ :=
  if t ≠ [] ∧ t.length ≤ 4 ∧ t.all fun c => (digit 16 c).isSome then some (digits 16 t 0)
  else none

/-- Groups with a `:` between them. -/
def fields (t : List UInt8) : Option (List ℕ) := (t.splitOn 58).mapM h16

/-- What stands in front of the first `::` and behind it. -/
def cut : List UInt8 → Option (List UInt8 × List UInt8)
  | [] => none
  | c :: t =>
      if c = 58 ∧ t.head? = some 58 then some ([], t.tail)
      else (cut t).map fun x => (c :: x.1, x.2)

/-- Groups on one side of a `::`. -/
def side (t : List UInt8) : Option (List ℕ) := if t = [] then some [] else fields t

/-- The groups that a text stands for: eight, or fewer and a `::` for one or more groups of
zeros. -/
def decode (t : List UInt8) : Option (List ℕ) :=
  match cut t with
  | none => (fields t).filter fun gs => gs.length = 8
  | some (l, r) =>
      match side l, side r with
      | some ls, some rs =>
          if ls.length + rs.length ≤ 7 then
            some (ls ++ List.replicate (8 - ls.length - rs.length) 0 ++ rs)
          else none
      | _, _ => none

/-- How often `::` occurs. -/
def doubleColons : List UInt8 → ℕ
  | [] => 0
  | c :: t => (if c = 58 ∧ t.head? = some 58 then 1 else 0) + doubleColons t

/-- The groups of an address. -/
def groups (v : In6Addr) : List ℕ :=
  List.ofFn fun i : Fin 8 =>
    have hlow : 2 * i.val < 16 := by omega
    have hhigh : 2 * i.val + 1 < 16 := by omega
    256 * v[2 * i.val].toNat + v[2 * i.val + 1].toNat

/-! ## Texts of groups -/

/-- Groups with a `:` in front of each. -/
def tagged (gs : List ℕ) : List UInt8 := gs.flatMap fun g => 58 :: hexadecimal g

/-- Groups with a `:` between them. -/
def joined : List ℕ → List UInt8
  | [] => []
  | g :: gs => hexadecimal g ++ tagged gs

theorem tagged_cons (g : ℕ) (gs : List ℕ) :
    tagged (g :: gs) = 58 :: (hexadecimal g ++ tagged gs) := rfl

theorem joined_eq_intercalate : ∀ {gs : List ℕ}, gs ≠ [] →
    joined gs = [58].intercalate (gs.map hexadecimal)
  | [], h => absurd rfl h
  | [g], _ => by simp [joined, tagged]
  | g :: g' :: gs, _ => by
      have ih := joined_eq_intercalate (List.cons_ne_nil g' gs)
      rw [joined] at ih
      rw [joined, tagged_cons, ih]
      simp [List.intercalate]

theorem ne_colon_of_mem {g : ℕ} {c : UInt8} (h : c ∈ hexadecimal g) : c ≠ 58 := by
  rintro rfl
  exact absurd (mem_hexadecimal h) (by decide)

theorem head_hexadecimal (g : ℕ) (t : List UInt8) :
    (hexadecimal g ++ t).head? ≠ some 58 := by
  obtain ⟨c, w, hw⟩ := List.exists_cons_of_ne_nil (hexadecimal_ne_nil g)
  rw [hw]
  intro h
  exact ne_colon_of_mem (hw ▸ List.mem_cons_self) (Option.some.inj h)

/-- Bytes other than `:` do not matter for where a `::` is. -/
theorem cut_append : ∀ {w : List UInt8}, (∀ c ∈ w, c ≠ 58) → ∀ t,
    cut (w ++ t) = (cut t).map fun x => (w ++ x.1, x.2)
  | [], _, t => by simp
  | c :: w, hw, t => by
      rw [List.cons_append, cut, if_neg fun h => hw c List.mem_cons_self h.1,
        cut_append (fun d hd => hw d (List.mem_cons_of_mem c hd)) t, Option.map_map]
      rfl

theorem doubleColons_append : ∀ {w : List UInt8}, (∀ c ∈ w, c ≠ 58) → ∀ t,
    doubleColons (w ++ t) = doubleColons t
  | [], _, t => rfl
  | c :: w, hw, t => by
      rw [List.cons_append, doubleColons, if_neg fun h => hw c List.mem_cons_self h.1,
        doubleColons_append (fun d hd => hw d (List.mem_cons_of_mem c hd)) t, Nat.zero_add]

theorem cut_tagged (t : List UInt8) : ∀ gs : List ℕ,
    cut (tagged gs ++ t) = (cut t).map fun x => (tagged gs ++ x.1, x.2)
  | [] => by simp [tagged]
  | g :: gs => by
      rw [tagged_cons, List.cons_append, List.append_assoc, cut,
        if_neg fun h => head_hexadecimal g _ h.2, cut_append (fun _ => ne_colon_of_mem),
        cut_tagged t gs, Option.map_map, Option.map_map]
      simp only [Function.comp_def, List.cons_append, List.append_assoc]

theorem doubleColons_tagged (t : List UInt8) : ∀ gs : List ℕ,
    doubleColons (tagged gs ++ t) = doubleColons t
  | [] => rfl
  | g :: gs => by
      rw [tagged_cons, List.cons_append, List.append_assoc, doubleColons,
        if_neg fun h => head_hexadecimal g _ h.2, doubleColons_append (fun _ => ne_colon_of_mem),
        doubleColons_tagged t gs, Nat.zero_add]

theorem cut_joined (t : List UInt8) : ∀ gs : List ℕ,
    cut (joined gs ++ t) = (cut t).map fun x => (joined gs ++ x.1, x.2)
  | [] => by simp [joined]
  | g :: gs => by
      rw [joined, List.append_assoc, cut_append (fun _ => ne_colon_of_mem), cut_tagged,
        Option.map_map]
      simp only [Function.comp_def, List.append_assoc]

theorem doubleColons_joined (t : List UInt8) : ∀ gs : List ℕ,
    doubleColons (joined gs ++ t) = doubleColons t
  | [] => rfl
  | g :: gs => by
      rw [joined, List.append_assoc, doubleColons_append (fun _ => ne_colon_of_mem),
        doubleColons_tagged]

theorem head_joined : ∀ gs : List ℕ, (joined gs).head? ≠ some 58
  | [] => by simp [joined]
  | g :: gs => head_hexadecimal g (tagged gs)

/-! ## Reading the groups -/

theorem h16_hexadecimal {g : ℕ} (hg : g < 65536) : h16 (hexadecimal g) = some g := by
  rw [h16, if_pos ⟨hexadecimal_ne_nil g, length_hexadecimal_le (by decide) hg,
    List.all_eq_true.mpr fun c hc => mem_hexadecimal hc⟩, digits_hexadecimal]

theorem mapM_h16 : ∀ {gs : List ℕ}, (∀ g ∈ gs, g < 65536) →
    (gs.map hexadecimal).mapM h16 = some gs
  | [], _ => rfl
  | g :: gs, h => by
      rw [List.map_cons, List.mapM_cons, h16_hexadecimal (h g List.mem_cons_self),
        mapM_h16 fun g' hg' => h g' (List.mem_cons_of_mem g hg')]
      rfl

theorem fields_joined {gs : List ℕ} (hne : gs ≠ []) (h : ∀ g ∈ gs, g < 65536) :
    fields (joined gs) = some gs := by
  have hcolon : ∀ l ∈ gs.map hexadecimal, (58 : UInt8) ∉ l := by
    intro l hl hmem
    obtain ⟨g, -, rfl⟩ := List.mem_map.mp hl
    exact ne_colon_of_mem hmem rfl
  rw [fields, joined_eq_intercalate hne, List.splitOn_intercalate 58 hcolon (by simpa using hne),
    mapM_h16 h]

theorem joined_eq_nil_iff : ∀ {gs : List ℕ}, joined gs = [] ↔ gs = []
  | [] => by simp [joined]
  | g :: gs => by simp [joined, hexadecimal_ne_nil]

theorem side_joined {gs : List ℕ} (h : ∀ g ∈ gs, g < 65536) : side (joined gs) = some gs := by
  rw [side]
  split_ifs with hnil
  · rw [joined_eq_nil_iff.mp hnil]
  · exact fields_joined (fun hgs => hnil (joined_eq_nil_iff.mpr hgs)) h

theorem decode_joined {gs : List ℕ} (hlen : gs.length = 8) (h : ∀ g ∈ gs, g < 65536) :
    decode (joined gs) = some gs := by
  have hne : gs ≠ [] := by
    rintro rfl
    cases hlen
  have hcut : cut (joined gs) = none := by simpa [cut] using cut_joined [] gs
  rw [decode, hcut]
  simp only [fields_joined hne h]
  rw [Option.filter_some, decide_eq_true hlen]
  rfl

theorem decode_compressed {ls rs : List ℕ} (hls : ∀ g ∈ ls, g < 65536)
    (hrs : ∀ g ∈ rs, g < 65536) (hlen : ls.length + rs.length ≤ 7) :
    decode (joined ls ++ 58 :: 58 :: joined rs) =
      some (ls ++ List.replicate (8 - ls.length - rs.length) 0 ++ rs) := by
  have hcut : cut (joined ls ++ 58 :: 58 :: joined rs) = some (joined ls, joined rs) := by
    rw [cut_joined, cut, if_pos ⟨rfl, rfl⟩]
    simp
  rw [decode, hcut]
  simp only [side_joined hls, side_joined hrs]
  rw [if_pos hlen]

/-! ## What the loop writes -/

section Loop

variable {host : Endian}

/-- Once zeros are used, every group is written. -/
theorem insertGroups_used : ∀ (gs : List ℕ) (prev : ℕ),
    insertGroups host gs (some prev) true = (tagged (gs.map (swap16 host)), true)
  | [], _ => rfl
  | g :: gs, prev => by
      rw [insertGroups, if_neg (by simp)]
      simp [insertGroups_used gs g, bytes, tagged]

/-- Behind a first zero, zeros are passed over up to the next other group. -/
theorem insertGroups_zeros : ∀ gs : List ℕ,
    insertGroups host gs (some 0) false =
      match gs.dropWhile (· = 0) with
      | [] => ([], false)
      | g :: gs' => (58 :: 58 :: joined ((g :: gs').map (swap16 host)), true)
  | [] => rfl
  | g :: gs => by
      rw [insertGroups]
      by_cases hg : g = 0
      · subst hg
        rw [if_pos ⟨rfl, rfl⟩, insertGroups_zeros gs, List.dropWhile_cons_of_pos (by simp)]
      · rw [if_neg fun h => hg h.1, List.dropWhile_cons_of_neg (by simpa using hg)]
        simp [insertGroups_used, bytes, joined]

/-- What is written for the groups from the first zero on, and `used_zeros`. -/
def fromZero (host : Endian) (gs : List ℕ) : List UInt8 × Bool :=
  match gs.dropWhile (· = 0) with
  | [] => ([], false)
  | g :: gs' => (58 :: 58 :: joined ((g :: gs').map (swap16 host)), true)

/-- Groups behind the group `prev`, if there is one. -/
def behind (prev : Option ℕ) (gs : List ℕ) : List UInt8 :=
  if prev.isSome then tagged gs else joined gs

/-- The loop up to the first zero, and from there on. -/
theorem insertGroups_eq : ∀ (gs : List ℕ) {prev : Option ℕ}, prev ≠ some 0 →
    insertGroups host gs prev false =
      (behind prev ((gs.takeWhile (· ≠ 0)).map (swap16 host)) ++
          (fromZero host (gs.dropWhile (· ≠ 0))).1,
        (fromZero host (gs.dropWhile (· ≠ 0))).2)
  | [], prev, _ => by
      cases prev <;> rfl
  | g :: gs, prev, hprev => by
      rw [insertGroups]
      by_cases hg : g = 0
      · subst hg
        rw [if_pos ⟨rfl, rfl⟩, insertGroups_zeros gs, List.takeWhile_cons_of_neg (by simp),
          List.dropWhile_cons_of_neg (by simp), fromZero, List.dropWhile_cons_of_pos (by simp)]
        cases prev <;> rfl
      · have hsome : some g ≠ some 0 := fun h => hg (Option.some.inj h)
        rw [if_neg fun h => hg h.1, List.takeWhile_cons_of_pos (by simpa using hg),
          List.dropWhile_cons_of_pos (by simpa using hg)]
        cases prev with
        | none => simp [insertGroups_eq gs hsome, behind, joined]
        | some p => simp_all [insertGroups_eq gs hsome, behind, tagged, bytes]

/-- The text of groups without a zero. -/
theorem groupsText_of_forall {gs : List ℕ} (h : ∀ g ∈ gs, g ≠ 0) :
    groupsText host gs = joined (gs.map (swap16 host)) := by
  have htake : gs.takeWhile (· ≠ 0) = gs := List.takeWhile_eq_self_iff.mpr (by simpa using h)
  have hdrop : gs.dropWhile (· ≠ 0) = [] := List.dropWhile_eq_nil_iff.mpr (by simpa using h)
  have hlast : gs.getLast? ≠ some 0 := fun hl => h 0 (List.mem_of_getLast? hl) rfl
  rw [groupsText, insertGroups_eq gs (by simp), htake, hdrop]
  simp [fromZero, behind, hlast]

/-- The text of groups with zeros: `::` stands for the first of them. -/
theorem groupsText_of_zeros {as bs : List ℕ} {k : ℕ} (has : ∀ g ∈ as, g ≠ 0)
    (hbs : bs.head? ≠ some 0) :
    groupsText host (as ++ List.replicate (k + 1) 0 ++ bs) =
      joined (as.map (swap16 host)) ++ 58 :: 58 :: joined (bs.map (swap16 host)) := by
  have has' : ∀ g ∈ as, decide (g ≠ 0) = true := by simpa using has
  have htake : (as ++ List.replicate (k + 1) 0 ++ bs).takeWhile (· ≠ 0) = as := by
    rw [List.append_assoc, List.takeWhile_append_of_pos has', List.replicate_succ,
      List.cons_append, List.takeWhile_cons_of_neg (by simp), List.append_nil]
  have hdrop : (as ++ List.replicate (k + 1) 0 ++ bs).dropWhile (· ≠ 0) =
      List.replicate (k + 1) 0 ++ bs := by
    rw [List.append_assoc, List.dropWhile_append_of_pos has', List.replicate_succ,
      List.cons_append, List.dropWhile_cons_of_neg (by simp)]
  have hzeros : (List.replicate (k + 1) 0 ++ bs).dropWhile (· = 0) = bs := by
    rw [List.dropWhile_append_of_pos (by simp)]
    cases bs with
    | nil => rfl
    | cons b bs => exact List.dropWhile_cons_of_neg (by simpa using hbs)
  rw [groupsText, insertGroups_eq _ (by simp), htake, hdrop, fromZero, hzeros]
  cases bs with
  | nil =>
      have hlast : (as ++ List.replicate (k + 1) 0).getLast? = some 0 := by
        rw [List.replicate_succ', ← List.append_assoc, List.getLast?_concat]
      simp [behind, joined, bytes, hlast]
  | cons b bs => simp [behind]

end Loop

/-- Either there is no zero, or there is a first run of zeros. -/
theorem exists_zeros : ∀ gs : List ℕ, (∀ g ∈ gs, g ≠ 0) ∨ ∃ as k bs,
    gs = as ++ List.replicate (k + 1) 0 ++ bs ∧ (∀ g ∈ as, g ≠ 0) ∧ bs.head? ≠ some 0
  | [] => Or.inl fun g hg => absurd hg List.not_mem_nil
  | g :: gs => by
      by_cases hg : g = 0
      · subst hg
        rcases exists_zeros gs with hall | ⟨as, k, bs, heq, has, hbs⟩
        · refine Or.inr ⟨[], 0, gs, rfl, fun g hg => absurd hg List.not_mem_nil, ?_⟩
          exact fun h => hall 0 (List.mem_of_mem_head? h) rfl
        · cases as with
          | nil =>
              refine Or.inr ⟨[], k + 1, bs, ?_, has, hbs⟩
              rw [heq]
              rfl
          | cons a as =>
              refine Or.inr ⟨[], 0, gs, rfl, fun g hg => absurd hg List.not_mem_nil, ?_⟩
              rw [heq]
              exact fun h => has a List.mem_cons_self (Option.some.inj h)
      · rcases exists_zeros gs with hall | ⟨as, k, bs, heq, has, hbs⟩
        · exact Or.inl (List.forall_mem_cons.mpr ⟨hg, hall⟩)
        · refine Or.inr ⟨g :: as, k, bs, ?_, List.forall_mem_cons.mpr ⟨hg, has⟩, hbs⟩
          rw [heq]
          rfl

/-! ## Round trip -/

/-- The text of eight groups, given as the machine reads them. -/
theorem decode_groupsText (host : Endian) {gs : List ℕ} (hlen : gs.length = 8)
    (h : ∀ g ∈ gs, swap16 host g < 65536) :
    doubleColons (groupsText host gs) ≤ 1 ∧
      decode (groupsText host gs) = some (gs.map (swap16 host)) := by
  have hmap : ∀ {l : List ℕ}, l ⊆ gs → ∀ g ∈ l.map (swap16 host), g < 65536 := by
    intro l hl g hg
    obtain ⟨g', hg', rfl⟩ := List.mem_map.mp hg
    exact h g' (hl hg')
  rcases exists_zeros gs with hall | ⟨as, k, bs, rfl, has, hbs⟩
  · rw [groupsText_of_forall hall]
    refine ⟨?_, decode_joined (by rw [List.length_map, hlen]) (hmap (List.Subset.refl gs))⟩
    have hnone := doubleColons_joined [] (gs.map (swap16 host))
    rw [List.append_nil] at hnone
    rw [hnone]
    exact Nat.zero_le 1
  · simp only [List.length_append, List.length_replicate] at hlen
    rw [groupsText_of_zeros has hbs]
    constructor
    · have hnone := doubleColons_joined [] (bs.map (swap16 host))
      rw [List.append_nil] at hnone
      rw [doubleColons_joined, doubleColons, if_pos ⟨rfl, rfl⟩, doubleColons,
        if_neg fun hn => head_joined _ hn.2, hnone]
      rfl
    · have hswap : swap16 host 0 = 0 := by cases host <;> rfl
      rw [decode_compressed (hmap (by simp)) (hmap (by simp))
        (by simp only [List.length_map]; omega)]
      simp only [List.length_map, List.map_append, List.map_replicate, hswap]
      congr 4
      omega

theorem swap16_word (host : Endian) (v : In6Addr) :
    (List.ofFn (word host v)).map (swap16 host) = groups v := by
  rw [List.map_ofFn, groups]
  congr 1
  funext i
  cases host with
  | little =>
      simp only [Function.comp_apply, word, swap16]
      omega
  | big => rfl

theorem lt_of_mem_groups {v : In6Addr} {g : ℕ} (h : g ∈ groups v) : g < 65536 := by
  obtain ⟨i, rfl⟩ := List.mem_ofFn.mp h
  dsimp only
  omega

/-- An address is given by its groups. -/
theorem groups_injective {v u : In6Addr} (h : groups v = groups u) : v = u := by
  have hall := List.ofFn_injective h
  apply Vector.ext
  intro j hj
  have hgroup := congrFun hall ⟨j / 2, by omega⟩
  dsimp only at hgroup
  apply BitVec.eq_of_toNat_eq
  rcases Nat.mod_two_eq_zero_or_one j with hmod | hmod
  · have hj' : 2 * (j / 2) = j := by omega
    simp only [hj'] at hgroup
    omega
  · have hj' : 2 * (j / 2) + 1 = j := by omega
    simp only [hj'] at hgroup
    omega

theorem ne_bracket_of_mem_joined : ∀ {gs : List ℕ} {c : UInt8}, c ∈ joined gs → c ≠ 93
  | [], _, h => absurd h List.not_mem_nil
  | g :: gs, c, h => by
      have hhex : ∀ {g : ℕ}, c ∈ hexadecimal g → c ≠ 93 := by
        rintro g hg rfl
        exact absurd (mem_hexadecimal hg) (by decide)
      rcases List.mem_append.mp h with h | h
      · exact hhex h
      · obtain ⟨g', -, h⟩ := List.mem_flatMap.mp h
        rcases List.mem_cons.mp h with rfl | h
        · decide
        · exact hhex h

theorem ne_bracket_of_mem (host : Endian) {gs : List ℕ} {c : UInt8}
    (h : c ∈ groupsText host gs) : c ≠ 93 := by
  rcases exists_zeros gs with hall | ⟨as, k, bs, rfl, has, hbs⟩
  · rw [groupsText_of_forall hall] at h
    exact ne_bracket_of_mem_joined h
  · rw [groupsText_of_zeros has hbs] at h
    rcases List.mem_append.mp h with h | h
    · exact ne_bracket_of_mem_joined h
    · rcases List.mem_cons.mp h with rfl | h
      · decide
      · rcases List.mem_cons.mp h with rfl | h
        · decide
        · exact ne_bracket_of_mem_joined h

/-- The text between the brackets can be read off what is printed. -/
theorem takeWhile_insert (host : Endian) (a : SockaddrIn6) :
    (insert host a).tail.takeWhile (· ≠ 93) =
      groupsText host (List.ofFn (word host a.addr)) := by
  have hall : ∀ c ∈ groupsText host (List.ofFn (word host a.addr)),
      decide (c ≠ 93) = true := by
    intro c hc
    exact decide_eq_true (ne_bracket_of_mem host hc)
  have hshape : (insert host a).tail = groupsText host (List.ofFn (word host a.addr)) ++
      93 :: 58 :: decimal (swap16 host a.port.toNat) := by
    simp [insert, bytes]
  rw [hshape, List.takeWhile_append_of_pos hall, List.takeWhile_cons_of_neg (by simp),
    List.append_nil]

/-- **IPv6 texts.** What is printed between the brackets has at most one `::` and stands for
the groups of the address; so the text tells the address. -/
theorem insert_decodes (host : Endian) (a : SockaddrIn6) :
    ∃ text, insert host a = bytes "[" ++ text ++ bytes "]:"
        ++ decimal (swap16 host a.port.toNat) ∧
      (∀ c ∈ text, c ≠ 93) ∧ doubleColons text ≤ 1 ∧ decode text = some (groups a.addr) ∧
      ∀ b, insert host b = insert host a → b.addr = a.addr := by
  have hdecode : ∀ v : In6Addr, doubleColons (groupsText host (List.ofFn (word host v))) ≤ 1 ∧
      decode (groupsText host (List.ofFn (word host v))) = some (groups v) := by
    intro v
    have hlt : ∀ g ∈ List.ofFn (word host v), swap16 host g < 65536 := by
      intro g hg
      refine lt_of_mem_groups (v := v) ?_
      rw [← swap16_word host v]
      exact List.mem_map.mpr ⟨g, hg, rfl⟩
    rw [← swap16_word host v]
    exact decode_groupsText host List.length_ofFn hlt
  refine ⟨_, rfl, fun c => ne_bracket_of_mem host, (hdecode a.addr).1, (hdecode a.addr).2, ?_⟩
  intro b hb
  have htext := takeWhile_insert host b
  rw [hb, takeWhile_insert host a] at htext
  have hgroups := (hdecode b.addr).2
  rw [← htext, (hdecode a.addr).2] at hgroups
  exact (groups_injective (Option.some.inj hgroups)).symm

end IPv6Address

end Skt
