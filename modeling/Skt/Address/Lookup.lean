import Skt.Lib.CString

/-!
# `Address::Lookup`

How a host string is split into the node and the service for `getaddrinfo`. A pointer into
the string is the list of the bytes from there on; a null pointer is `none`. There are two
stages, the first one for an address in brackets; the second one sets the service before it
knows whether it is going to split.
-/

namespace Skt

namespace Address

open Lib Lib.CString

/-- `memchr(ptr, c, n)` for the `n` bytes of a string from `ptr` on. -/
def memchr (c : UInt8) (ptr : List UInt8) : Option (List UInt8) :=
  match ptr.dropWhile (· ≠ c) with
  | [] => none
  | e => some e

/-- The first stage: `node` and `service`. -/
def bracketStage (host : List UInt8) : List UInt8 × Option (List UInt8) :=
  match host with
  | 91 :: s =>
      match memchr 93 s with
      | some e => (s.take (s.length - e.length),
          if e.tail.head? = some 58 then some (e.drop 2) else none)
      | none => ([], none)
  | _ => ([], none)

/-- The second stage, for a node that is still empty. -/
def colonStage (host : List UInt8) : List UInt8 × Option (List UInt8) :=
  match memchr 58 host with
  | some service =>
      if memchr 58 service.tail = none then
        (host.take (host.length - service.length), some service.tail)
      else ([], some service)
  | none => ([], none)

/-- `node` and `service` as they are passed to `getaddrinfo`. -/
def lookup (host : List UInt8) : List UInt8 × Option (List UInt8) :=
  let x := bracketStage host
  let x := if x.1 = [] then colonStage host else x
  if x.1 = [] then (host, x.2) else x

/-! ## The forms of a host string -/

/-- A string that starts with a pair of brackets: what is in them, and what is behind. -/
def bracket (host : List UInt8) : Option (List UInt8 × List UInt8) :=
  match host with
  | 91 :: s =>
      match s.dropWhile (· ≠ 93) with
      | [] => none
      | _ :: r => some (s.takeWhile (· ≠ 93), r)
  | _ => none

/-- The part of a string that is not in a leading pair of brackets. -/
def outside (host : List UInt8) : List UInt8 :=
  match bracket host with
  | some (_, r) => r
  | none => host

/-- `"[x]"` or `"[x]:p"` with a non-empty `x`. -/
def Literal (host : List UInt8) : Prop :=
  ∃ x r, bracket host = some (x, r) ∧ x ≠ [] ∧ (r = [] ∨ r.head? = some 58)

/-- How a host string is to be split. -/
structure Splits (host : List UInt8) (result : List UInt8 × Option (List UInt8)) : Prop where
  literal_port : ∀ x p, host = 91 :: x ++ 93 :: 58 :: p → x ≠ [] → 93 ∉ x → result = (x, some p)
  literal : ∀ x, host = 91 :: x ++ [93] → x ≠ [] → 93 ∉ x → result = (x, none)
  port : ∀ h p, host = h ++ 58 :: p → h ≠ [] → (outside host).count 58 = 1 → 58 ∉ p →
    ¬Literal host → result = (h, some p)
  plain : 58 ∉ host → ¬Literal host → result = (host, none)
  bare : bracket host = none → 2 ≤ host.count 58 → result = (host, none)

/-! ## Where a byte is -/

theorem dropWhile_append_cons {c : UInt8} {a : List UInt8} (h : c ∉ a) (b : List UInt8) :
    (a ++ c :: b).dropWhile (· ≠ c) = c :: b := by
  have ha : ∀ d ∈ a, decide (d ≠ c) = true := by
    intro d hd
    exact decide_eq_true fun heq => h (heq ▸ hd)
  rw [List.dropWhile_append_of_pos ha, List.dropWhile_cons_of_neg (by simp)]

theorem takeWhile_append_cons {c : UInt8} {a : List UInt8} (h : c ∉ a) (b : List UInt8) :
    (a ++ c :: b).takeWhile (· ≠ c) = a := by
  have ha : ∀ d ∈ a, decide (d ≠ c) = true := by
    intro d hd
    exact decide_eq_true fun heq => h (heq ▸ hd)
  rw [List.takeWhile_append_of_pos ha, List.takeWhile_cons_of_neg (by simp), List.append_nil]

theorem dropWhile_of_not_mem {c : UInt8} {s : List UInt8} (h : c ∉ s) :
    s.dropWhile (· ≠ c) = [] := by
  refine List.dropWhile_eq_nil_iff.mpr fun d hd => ?_
  exact decide_eq_true fun heq => h (heq ▸ hd)

theorem memchr_of_not_mem {c : UInt8} {s : List UInt8} (h : c ∉ s) : memchr c s = none := by
  rw [memchr, dropWhile_of_not_mem h]

theorem memchr_append_cons {c : UInt8} {a : List UInt8} (h : c ∉ a) (b : List UInt8) :
    memchr c (a ++ c :: b) = some (c :: b) := by
  rw [memchr, dropWhile_append_cons h]

theorem memchr_eq_none_iff {c : UInt8} {s : List UInt8} : memchr c s = none ↔ c ∉ s := by
  constructor
  · intro h hmem
    obtain ⟨a, b, rfl, ha⟩ := List.eq_append_cons_of_mem hmem
    rw [memchr_append_cons ha] at h
    cases h
  · exact memchr_of_not_mem

theorem bracket_iff {host x r : List UInt8} :
    bracket host = some (x, r) ↔ host = 91 :: x ++ 93 :: r ∧ 93 ∉ x := by
  constructor
  · intro h
    unfold bracket at h
    split at h
    case h_2 => cases h
    case h_1 s =>
      by_cases hmem : 93 ∈ s
      · obtain ⟨a, b, rfl, ha⟩ := List.eq_append_cons_of_mem hmem
        rw [dropWhile_append_cons ha, takeWhile_append_cons ha] at h
        cases h
        exact ⟨rfl, ha⟩
      · rw [dropWhile_of_not_mem hmem] at h
        cases h
  · rintro ⟨rfl, hx⟩
    rw [List.cons_append, bracket, dropWhile_append_cons hx, takeWhile_append_cons hx]

/-! ## What `lookup` does -/

/-- The first stage finds a pair of brackets at the front. -/
theorem bracketStage_eq (host : List UInt8) :
    bracketStage host =
      match bracket host with
      | some (x, r) => (x, if r.head? = some 58 then some r.tail else none)
      | none => ([], none) := by
  unfold bracketStage bracket
  split
  case h_2 => rfl
  case h_1 s =>
    by_cases hmem : 93 ∈ s
    · obtain ⟨a, b, rfl, ha⟩ := List.eq_append_cons_of_mem hmem
      rw [memchr_append_cons ha, dropWhile_append_cons ha, takeWhile_append_cons ha]
      simp
    · rw [memchr_of_not_mem hmem, dropWhile_of_not_mem hmem]

theorem lookup_of_bracket {host x r : List UInt8} (h : bracket host = some (x, r))
    (hx : x ≠ []) :
    lookup host = (x, if r.head? = some 58 then some r.tail else none) := by
  simp only [lookup, bracketStage_eq, h, if_neg hx]

/-- No pair of brackets at the front, or nothing in it. -/
def Open (host : List UInt8) : Prop := ∀ x r, bracket host = some (x, r) → x = []

theorem lookup_of_open {host : List UInt8} (h : Open host) :
    lookup host =
      if (colonStage host).1 = [] then (host, (colonStage host).2) else colonStage host := by
  have hnode : (bracketStage host).1 = [] := by
    rw [bracketStage_eq]
    cases hb : bracket host with
    | none => rfl
    | some x => exact h x.1 x.2 hb
  simp only [lookup, if_pos hnode]

theorem lookup_plain {host : List UInt8} (h : Open host) (hcolon : 58 ∉ host) :
    lookup host = (host, none) := by
  rw [lookup_of_open h, colonStage, memchr_of_not_mem hcolon]
  rfl

theorem lookup_port {h p : List UInt8} (hopen : Open (h ++ 58 :: p)) (hh : 58 ∉ h)
    (hp : 58 ∉ p) (hne : h ≠ []) : lookup (h ++ 58 :: p) = (h, some p) := by
  have hstage : colonStage (h ++ 58 :: p) = (h, some p) := by
    rw [colonStage, memchr_append_cons hh]
    simp [memchr_of_not_mem hp]
  rw [lookup_of_open hopen, hstage, if_neg hne]

/-- Two colons: the string is not split, but the service is set. -/
theorem lookup_colons {h p : List UInt8} (hopen : Open (h ++ 58 :: p)) (hh : 58 ∉ h)
    (hp : 58 ∈ p) : lookup (h ++ 58 :: p) = (h ++ 58 :: p, some (58 :: p)) := by
  have hstage : colonStage (h ++ 58 :: p) = ([], some (58 :: p)) := by
    rw [colonStage, memchr_append_cons hh]
    have hsome : memchr 58 p ≠ none := fun hn => memchr_eq_none_iff.mp hn hp
    simp [hsome]
  rw [lookup_of_open hopen, hstage, if_pos rfl]

/-! ## When it is right -/

/-- Not an address with two colons and no brackets, and no other text behind brackets. -/
structure Clear (host : List UInt8) : Prop where
  bare : bracket host = none → host.count 58 ≤ 1
  behind : ∀ x r, bracket host = some (x, r) → x ≠ [] → r ≠ [] → r.head? ≠ some 58 →
    r.count 58 ≠ 1 ∧ 58 ∈ host

/-- The brackets of a string are found. -/
theorem bracket_of_eq {x r : List UInt8} (hx : 93 ∉ x) :
    bracket (91 :: x ++ 93 :: r) = some (x, r) := bracket_iff.mpr ⟨rfl, hx⟩

/-- A string without a full pair of brackets at the front. -/
theorem splits_of_open_iff {host : List UInt8} (hopen : Open host) :
    Splits host (lookup host) ↔ (bracket host = none → host.count 58 ≤ 1) := by
  have hliteral : ∀ {P : Prop} {x r : List UInt8}, host = 91 :: x ++ 93 :: r → x ≠ [] →
      93 ∉ x → P := by
    intro P x r heq hne hx
    exact absurd (hopen x r (bracket_iff.mpr ⟨heq, hx⟩)) hne
  by_cases hcolon : 58 ∈ host
  · obtain ⟨h, p, rfl, hh⟩ := List.eq_append_cons_of_mem hcolon
    by_cases hp : 58 ∈ p
    · have hcount : 2 ≤ (h ++ 58 :: p).count 58 := by
        rw [List.count_append, List.count_cons_self]
        have hpos := List.count_pos_iff.mpr hp
        omega
      rw [lookup_colons hopen hh hp]
      constructor
      · intro hsplits hnone
        exact absurd (hsplits.bare hnone hcount) (by simp)
      · intro himp
        have hsome : bracket (h ++ 58 :: p) ≠ none := fun hn => by
          have := himp hn
          omega
        obtain ⟨⟨x, r⟩, hb⟩ := Option.ne_none_iff_exists'.mp hsome
        have hnil := hopen x r hb
        subst hnil
        refine ⟨fun x p heq hne hx => hliteral heq hne hx,
          fun x heq hne hx => hliteral heq hne hx, fun h' p' heq _ hone _ _ => ?_,
          fun hnot => absurd hcolon hnot, fun hnone => absurd hnone hsome⟩
        -- there is nothing in the brackets, so all colons are outside
        obtain ⟨hhost, -⟩ := bracket_iff.mp hb
        rw [outside, hb] at hone
        rw [hhost] at hcount
        simp at hcount
        simp only at hone
        omega
    · refine iff_of_true ?_ fun _ => ?_
      · refine ⟨fun x p heq hne hx => hliteral heq hne hx,
          fun x heq hne hx => hliteral heq hne hx, fun h' p' heq hne _ hp' _ => ?_,
          fun hnot => absurd hcolon hnot, fun _ htwo => ?_⟩
        · obtain ⟨rfl, -, rfl⟩ := (List.append_cons_inj_of_notMem hh hp).mp heq
          exact lookup_port hopen hh hp hne
        · rw [List.count_append, List.count_cons_self, List.count_eq_zero.mpr hh,
            List.count_eq_zero.mpr hp] at htwo
          omega
      · rw [List.count_append, List.count_cons_self, List.count_eq_zero.mpr hh,
          List.count_eq_zero.mpr hp]
  · refine iff_of_true ?_ fun _ => ?_
    · refine ⟨fun x p heq hne hx => hliteral heq hne hx,
        fun x heq hne hx => hliteral heq hne hx, fun h p heq _ _ _ _ => ?_,
        fun _ _ => lookup_plain hopen hcolon, fun _ _ => lookup_plain hopen hcolon⟩
      rw [heq] at hcolon
      exact absurd (List.mem_append_right h List.mem_cons_self) hcolon
    · rw [List.count_eq_zero.mpr hcolon]
      exact Nat.zero_le 1

/-- A string with a full pair of brackets at the front. -/
theorem splits_of_bracket_iff {x r : List UInt8} (hmem : 93 ∉ x) (hx : x ≠ []) :
    Splits (91 :: x ++ 93 :: r) (lookup (91 :: x ++ 93 :: r)) ↔
      (r ≠ [] → r.head? ≠ some 58 → r.count 58 ≠ 1 ∧ 58 ∈ 91 :: x ++ 93 :: r) := by
  have hb := bracket_of_eq (r := r) hmem
  have hunique : ∀ {x' r' : List UInt8}, 91 :: x ++ 93 :: r = 91 :: x' ++ 93 :: r' → 93 ∉ x' →
      x' = x ∧ r' = r := by
    intro x' r' heq hx'
    rw [bracket_iff.mpr ⟨heq, hx'⟩] at hb
    cases hb
    exact ⟨rfl, rfl⟩
  have houtside : outside (91 :: x ++ 93 :: r) = r := by
    rw [outside, hb]
  have hbare : ∀ {P : Prop}, bracket (91 :: x ++ 93 :: r) = none → P := by
    intro P hn
    rw [hb] at hn
    cases hn
  rw [lookup_of_bracket hb hx]
  by_cases hlit : r = [] ∨ r.head? = some 58
  · refine iff_of_true ?_ ?_
    · have hliteral : Literal (91 :: x ++ 93 :: r) := ⟨x, r, hb, hx, hlit⟩
      refine ⟨fun x' p heq _ hx' => ?_, fun x' heq _ hx' => ?_,
        fun _ _ _ _ _ _ hnot => absurd hliteral hnot, fun _ hnot => absurd hliteral hnot,
        fun hn => hbare hn⟩
      · obtain ⟨rfl, rfl⟩ := hunique heq hx'
        rfl
      · obtain ⟨rfl, rfl⟩ := hunique heq hx'
        rfl
    · intro hne hhead
      exact absurd (hlit.resolve_left hne) hhead
  · rw [not_or] at hlit
    obtain ⟨hne, hhead⟩ := hlit
    have hnot : ¬Literal (91 :: x ++ 93 :: r) := by
      rintro ⟨x', r', hb', -, hr'⟩
      rw [hb] at hb'
      cases hb'
      exact hr'.elim hne hhead
    rw [if_neg hhead]
    constructor
    · rintro hsplits - -
      constructor
      · -- one colon behind the brackets: the string should be split there
        intro hone
        have hmem58 : 58 ∈ r := List.count_pos_iff.mp (by omega)
        obtain ⟨a, p, rfl, ha⟩ := List.eq_append_cons_of_mem hmem58
        have hp : 58 ∉ p := by
          rw [List.count_append, List.count_cons_self, List.count_eq_zero.mpr ha] at hone
          exact List.count_eq_zero.mp (by omega)
        have hport := hsplits.port (91 :: x ++ 93 :: a) p (by simp) (by simp)
          (by rw [houtside]; exact hone) hp hnot
        exact absurd (congrArg Prod.snd hport) (by simp)
      · by_contra hcolon
        have hplain := hsplits.plain hcolon hnot
        have hlen := congrArg (fun y => y.1.length) hplain
        simp at hlen
        omega
    · intro himp
      obtain ⟨hone, hcolon⟩ := himp hne hhead
      refine ⟨fun x' p heq _ hx' => ?_, fun x' heq _ hx' => ?_, fun _ _ _ _ hcount _ _ => ?_,
        fun hn => absurd hcolon hn, fun hn => hbare hn⟩
      · obtain ⟨rfl, rfl⟩ := hunique heq hx'
        exact absurd rfl hhead
      · obtain ⟨rfl, rfl⟩ := hunique heq hx'
        exact absurd rfl hne
      · rw [houtside] at hcount
        exact absurd hcount hone

/-- **Splitting a host.** The two stages give the node and the service that are wanted,
unless the string has two colons and no brackets, in which case the service is the string
from the first colon on; or there is a text behind the brackets, which is dropped. -/
theorem lookup_splits_iff (host : List UInt8) : Splits host (lookup host) ↔ Clear host := by
  by_cases hopen : Open host
  · rw [splits_of_open_iff hopen]
    constructor
    · intro hbare
      exact ⟨hbare, fun x r hb hx => absurd (hopen x r hb) hx⟩
    · exact fun h => h.bare
  · unfold Open at hopen
    push Not at hopen
    obtain ⟨x, r, hb, hx⟩ := hopen
    obtain ⟨rfl, hmem⟩ := bracket_iff.mp hb
    rw [splits_of_bracket_iff hmem hx]
    constructor
    · intro himp
      refine ⟨fun hn => ?_, fun x' r' hb' _ => ?_⟩
      · rw [hb] at hn
        cases hn
      · rw [hb] at hb'
        cases hb'
        exact himp
    · exact fun h => h.behind x r hb hx

/-- The address `::1` is looked up with the service `::1`. -/
theorem lookup_bare_ipv6 : lookup (bytes "::1") = (bytes "::1", some (bytes "::1")) ∧
    ¬Splits (bytes "::1") (lookup (bytes "::1")) := by
  have hlookup : lookup (bytes "::1") = (bytes "::1", some (bytes "::1")) := by decide
  refine ⟨hlookup, fun h => ?_⟩
  have hbare := h.bare (by decide) (by decide)
  rw [hlookup] at hbare
  cases hbare

end Address

end Skt
