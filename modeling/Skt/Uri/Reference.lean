import Skt.Uri.Parts

/-!
# References of any form

A `Reference` carries the substrings of a string that `Create` accepts, whichever of the
alternatives of `uri.rl` it is made of: with or without a scheme, and with or without an
authority. Without an authority no transition saves the path.
-/

namespace Skt

set_option maxRecDepth 4000

namespace Uri

open Lib Lib.CString Lib.Ragel Lib.Grammar UriGrammar

/-! ## The parts of a reference -/

structure Authority where
  userinfo : Option (List UInt8)
  host : List UInt8
  port : Option (List UInt8)
  userinfo_derives : ∀ w ∈ userinfo, Derives (rule .source) [.userinfo] w
  host_derives : Derives (rule .source) [.host] host
  port_derives : ∀ w ∈ port, Derives (rule .source) [.port] w

def Authority.text (a : Authority) : List UInt8 :=
  userText a.userinfo ++ a.host ++ optText 58 a.port

def authorityText : Option Authority → List UInt8
  | none => []
  | some a => 47 :: 47 :: a.text

def schemeText : Option (List UInt8) → List UInt8
  | none => []
  | some v => v ++ [58]

/-- The paths that may stand behind an authority, and those that may stand without one;
`first` is the rule for a path whose first byte is no `/`. -/
def PathFits (first : Symbol) : Option Authority → List UInt8 → Prop
  | some _, path => Derives (rule .source) [.pathAbempty] path
  | none, path => path = [] ∨ Derives (rule .source) [.pathAbsolute] path ∨
      Derives (rule .source) [first] path

/-- Without a scheme the first segment of a path has no `:`. -/
def firstPath : Option (List UInt8) → Symbol
  | none => .pathNoscheme
  | some _ => .pathRootless

structure Reference where
  scheme : Option (List UInt8)
  authority : Option Authority
  path : List UInt8
  query : Option (List UInt8)
  fragment : Option (List UInt8)
  scheme_derives : ∀ v ∈ scheme, Derives (rule .source) [.scheme] v
  path_derives : PathFits (firstPath scheme) authority path
  query_derives : ∀ w ∈ query, Derives (rule .source) [.query] w
  fragment_derives : ∀ w ∈ fragment, Derives (rule .source) [.fragment] w

namespace Reference

/-- The text up to the end of the path. -/
def front (r : Reference) : List UInt8 :=
  schemeText r.scheme ++ (authorityText r.authority ++ r.path)

def text (r : Reference) : List UInt8 := r.front ++ optText 63 r.query ++ optText 35 r.fragment

end Reference

/-! ## References and derivations -/

theorem derives_authorityText {w : List UInt8} :
    Derives (rule .source) [.lit 47, .lit 47, .authority, .pathAbempty] w ↔
      ∃ a path, w = authorityText (some a) ++ path ∧
        Derives (rule .source) [.pathAbempty] path := by
  constructor
  · intro h
    obtain ⟨x, w, rfl, hx, h⟩ := derives_cons.mp h
    obtain ⟨y, w, rfl, hy, h⟩ := derives_cons.mp h
    obtain ⟨auth, path, rfl, hauth, hpath⟩ := derives_cons.mp h
    obtain rfl := (derives_lit 47).mp hx
    obtain rfl := (derives_lit 47).mp hy
    obtain ⟨user, host, port, rfl, huser, hhost, hport⟩ := derives_authority.mp hauth
    exact ⟨⟨user, host, port, huser, hhost, hport⟩, path, rfl, hpath⟩
  · rintro ⟨a, path, rfl, hpath⟩
    have hauth : Derives (rule .source) [.authority] a.text := derives_authority.mpr
      ⟨a.userinfo, a.host, a.port, rfl, a.userinfo_derives, a.host_derives, a.port_derives⟩
    exact derives_cons.mpr ⟨[47], _, rfl, (derives_lit 47).mpr rfl,
      derives_cons.mpr ⟨[47], _, rfl, (derives_lit 47).mpr rfl,
        derives_cons.mpr ⟨a.text, path, rfl, hauth, hpath⟩⟩⟩

/-- `hier_part` and `relative_part`. -/
theorem derives_hier (first : Symbol) {n : Symbol} {w : List UInt8}
    (hn : rule .source n = .oneOf [[.lit 47, .lit 47, .authority, .pathAbempty], [.pathAbsolute],
      [first], []]) :
    Derives (rule .source) [n] w ↔
      ∃ authority path, w = authorityText authority ++ path ∧ PathFits first authority path := by
  rw [derives_oneOf hn]
  constructor
  · rintro ⟨alt, halt, h⟩
    simp only [List.mem_cons, List.not_mem_nil, or_false] at halt
    rcases halt with rfl | rfl | rfl | rfl
    · obtain ⟨a, path, rfl, hpath⟩ := derives_authorityText.mp h
      exact ⟨some a, path, rfl, hpath⟩
    · exact ⟨none, w, rfl, Or.inr (Or.inl h)⟩
    · exact ⟨none, w, rfl, Or.inr (Or.inr h)⟩
    · exact ⟨none, w, rfl, Or.inl (derives_nil.mp h)⟩
  · rintro ⟨authority, path, rfl, hpath⟩
    cases authority with
    | some a =>
        exact ⟨_, List.mem_cons_self, derives_authorityText.mpr ⟨a, path, rfl, hpath⟩⟩
    | none =>
        rcases hpath with rfl | habs | hfirst
        · exact ⟨[], by simp, .nil⟩
        · exact ⟨[.pathAbsolute], by simp, habs⟩
        · exact ⟨[first], by simp, hfirst⟩

theorem derives_tail {n : Symbol} {w : List UInt8} :
    Derives (rule .source) [n, .queryOpt, .fragmentOpt] w ↔
      ∃ v query fragment, w = v ++ optText 63 query ++ optText 35 fragment ∧
        Derives (rule .source) [n] v ∧
        (∀ x ∈ query, Derives (rule .source) [.query] x) ∧
        ∀ x ∈ fragment, Derives (rule .source) [.fragment] x := by
  constructor
  · intro h
    obtain ⟨v, w, rfl, hv, h⟩ := derives_cons.mp h
    obtain ⟨x, y, rfl, hx, hy⟩ := derives_cons.mp h
    obtain ⟨query, rfl, hquery⟩ := (derives_opt (c := 63) rfl).mp hx
    obtain ⟨fragment, rfl, hfragment⟩ := (derives_opt (c := 35) rfl).mp hy
    exact ⟨v, query, fragment, by simp, hv, hquery, hfragment⟩
  · rintro ⟨v, query, fragment, rfl, hv, hquery, hfragment⟩
    rw [List.append_assoc]
    exact derives_cons.mpr ⟨v, _, rfl, hv, derives_cons.mpr ⟨_, _, rfl,
      (derives_opt (c := 63) rfl).mpr ⟨query, rfl, hquery⟩,
      (derives_opt (c := 35) rfl).mpr ⟨fragment, rfl, hfragment⟩⟩⟩

/-- **Every reference has parts**, and parts make a reference. -/
theorem derives_reference {w : List UInt8} :
    Derives (rule .source) [.uriReference] w ↔ ∃ r : Reference, r.text = w := by
  rw [derives_oneOf rfl]
  constructor
  · rintro ⟨alt, halt, h⟩
    simp only [List.mem_cons, List.not_mem_nil, or_false] at halt
    rcases halt with rfl | rfl
    · obtain ⟨alt, halt, h⟩ := (derives_oneOf rfl).mp h
      obtain rfl := List.mem_singleton.mp halt
      obtain ⟨v, w, rfl, hv, hcolon⟩ := derives_cons.mp h
      obtain ⟨x, w, rfl, hx, htail⟩ := derives_cons.mp hcolon
      obtain rfl := (derives_lit 58).mp hx
      obtain ⟨hier, query, fragment, rfl, hhier, hquery, hfragment⟩ := derives_tail.mp htail
      obtain ⟨authority, path, rfl, hpath⟩ := (derives_hier .pathRootless rfl).mp hhier
      refine ⟨⟨some v, authority, path, query, fragment, ?_, hpath, hquery, hfragment⟩, ?_⟩
      · rintro v' ⟨⟩
        exact hv
      · simp [Reference.text, Reference.front, schemeText]
    · obtain ⟨alt, halt, h⟩ := (derives_oneOf rfl).mp h
      obtain rfl := List.mem_singleton.mp halt
      obtain ⟨hier, query, fragment, rfl, hhier, hquery, hfragment⟩ := derives_tail.mp h
      obtain ⟨authority, path, rfl, hpath⟩ := (derives_hier .pathNoscheme rfl).mp hhier
      exact ⟨⟨none, authority, path, query, fragment, by simp, hpath, hquery, hfragment⟩, rfl⟩
  · rintro ⟨r, rfl⟩
    have hderives := r.scheme_derives
    have hpath := r.path_derives
    cases hscheme : r.scheme with
    | none =>
        rw [hscheme] at hpath
        refine ⟨[.relativeRef], by simp, (derives_oneOf rfl).mpr ⟨_, List.mem_cons_self, ?_⟩⟩
        refine derives_tail.mpr ⟨_, r.query, r.fragment, ?_, (derives_hier _ rfl).mpr
          ⟨r.authority, r.path, rfl, hpath⟩, r.query_derives, r.fragment_derives⟩
        rw [Reference.text, Reference.front, hscheme]
        rfl
    | some v =>
        rw [hscheme] at hpath
        refine ⟨[.uri], by simp, (derives_oneOf rfl).mpr ⟨_, List.mem_cons_self, ?_⟩⟩
        refine derives_cons.mpr ⟨v, _, ?_, hderives v hscheme, derives_cons.mpr ⟨[58], _, rfl,
          (derives_lit 58).mpr rfl, derives_tail.mpr ⟨_, r.query, r.fragment, rfl,
            (derives_hier _ rfl).mpr ⟨r.authority, r.path, rfl, hpath⟩, r.query_derives,
            r.fragment_derives⟩⟩⟩
        rw [Reference.text, Reference.front, hscheme]
        simp [schemeText]

/-! ## The bytes of paths without an authority -/

/-- All bytes but `#`, `/` and `?`; and without the `:`. -/
def segmentBytes : List (ℕ × ℕ) := [(0, 34), (36, 46), (48, 62), (64, 255)]

def colonFree : List (ℕ × ℕ) := [(0, 34), (36, 46), (48, 57), (59, 62), (64, 255)]

/-- The same without the letters. -/
def notLetters : List (ℕ × ℕ) :=
  [(0, 34), (36, 46), (48, 57), (59, 62), (64, 64), (91, 96), (123, 255)]

theorem letter_or : ∀ c : UInt8, within colonFree c.toNat = true →
    within [(65, 90), (97, 122)] c.toNat = true ∨ within notLetters c.toNat = true := by
  decide

/-- The symbols of a segment. -/
def segmentSymbols : List Symbol :=
  [.segmentNz, .pathSegment, .pchar, .nonAscii, .unreserved, .pctEncoded, .subDelims, .lit 58,
    .lit 64, .lit 37, .xdigit]

theorem segmentNz_cons {w : List UInt8} (h : Derives (rule .source) [.segmentNz] w) :
    ∃ c v, w = c :: v ∧ ∀ b ∈ w, within segmentBytes b.toNat = true := by
  have hne : w ≠ [] := by
    rintro rfl
    exact not_derives_of_recognize 50 (by decide) h
  obtain ⟨c, v, rfl⟩ := List.exists_cons_of_ne_nil hne
  exact ⟨c, v, rfl, h.within_of_closed (T := segmentSymbols) (by decide) (by decide)⟩

theorem segmentNzNc_cons {w : List UInt8} (h : Derives (rule .source) [.segmentNzNc] w) :
    ∃ c v, w = c :: v ∧ ∀ b ∈ w, within colonFree b.toNat = true := by
  have hne : w ≠ [] := by
    rintro rfl
    exact not_derives_of_recognize 50 (by decide) h
  obtain ⟨c, v, rfl⟩ := List.exists_cons_of_ne_nil hne
  exact ⟨c, v, rfl, h.within_of_closed (T := [.segmentNzNc, .pcharNc, .nonAscii, .unreserved,
    .pctEncoded, .subDelims, .lit 64, .lit 37, .xdigit]) (by decide) (by decide)⟩

theorem pathBytes_of_segment {c : UInt8} (h : within segmentBytes c.toNat = true) :
    within pathBytes c.toNat = true :=
  within_of_inside (by decide) h

/-- A segment that is not empty, and more behind it. -/
theorem rootless_shape {w : List UInt8}
    (h : Derives (rule .source) [.segmentNz, .pathAbempty] w) :
    ∃ c v, w = c :: v ∧ within segmentBytes c.toNat = true ∧
      ∀ b ∈ v, within pathBytes b.toNat = true := by
  obtain ⟨x, y, rfl, hx, hy⟩ := derives_cons.mp h
  obtain ⟨c, v, rfl, hbytes⟩ := segmentNz_cons hx
  refine ⟨c, v ++ y, rfl, hbytes c List.mem_cons_self, fun b hb => ?_⟩
  rcases List.mem_append.mp hb with hb | hb
  · exact pathBytes_of_segment (hbytes b (List.mem_cons_of_mem c hb))
  · exact pathBytes_of_derives hy b hb

theorem absolute_shape {w : List UInt8} (h : Derives (rule .source) [.pathAbsolute] w) :
    w = [47] ∨ ∃ c v, w = 47 :: c :: v ∧ within segmentBytes c.toNat = true ∧
      ∀ b ∈ v, within pathBytes b.toNat = true := by
  obtain ⟨alt, halt, h⟩ := (derives_oneOf rfl).mp h
  simp only [List.mem_cons, List.not_mem_nil, or_false] at halt
  rcases halt with rfl | rfl
  · exact Or.inl ((derives_lit 47).mp h)
  · obtain ⟨x, y, rfl, hx, hy⟩ := derives_cons.mp h
    obtain rfl := (derives_lit 47).mp hx
    obtain ⟨c, v, rfl, hc, hv⟩ := rootless_shape hy
    exact Or.inr ⟨c, v, rfl, hc, hv⟩

theorem noscheme_shape {w : List UInt8} (h : Derives (rule .source) [.pathNoscheme] w) :
    ∃ c v tail, w = c :: v ++ tail ∧ (∀ b ∈ c :: v, within colonFree b.toNat = true) ∧
      (tail = [] ∨ tail.head? = some 47) ∧ ∀ b ∈ tail, within pathBytes b.toNat = true := by
  obtain ⟨alt, halt, h⟩ := (derives_oneOf rfl).mp h
  obtain rfl := List.mem_singleton.mp halt
  obtain ⟨x, y, rfl, hx, hy⟩ := derives_cons.mp h
  obtain ⟨c, v, rfl, hbytes⟩ := segmentNzNc_cons hx
  exact ⟨c, v, y, rfl, hbytes, head_of_path hy, pathBytes_of_derives hy⟩

/-! ## The run over a path without an authority -/

/-- In a segment behind the first `/`, or behind a scheme. -/
def segmentStates : List (ℕ × ℕ) := [(5, 6), (455, 455)]

/-- In a first segment, which may still turn out to be a scheme. -/
def firstStates : List (ℕ × ℕ) := [(3, 4), (452, 452), (508, 508)]

/-- Where a path without an authority may end. -/
def plainEnds : List (ℕ × ℕ) := [(451, 452), (455, 455), (458, 458), (508, 510)]

/-- What the run over a reference without an authority uses of the table. -/
structure PlainLayout : Prop where
  slash : leads [(451, 451), (509, 509)] [(47, 47)] (fun _ => []) [(458, 458), (510, 510)]
  segment_first : leads [(458, 458), (509, 510)] segmentBytes (fun _ => []) segmentStates
  segment_stays : uriTable.stays segmentStates pathBytes
  first_letter : leads [(451, 451)] [(65, 90), (97, 122)] (fun _ => [.mark]) [(508, 508)]
  first_other : leads [(451, 451)] notLetters (fun _ => []) [(3, 3), (452, 452)]
  first_stays : uriTable.stays firstStates colonFree
  first_slash : leads firstStates [(47, 47)] (fun _ => []) [(455, 455)]
  query : leads plainEnds [(63, 63)] (fun _ => []) [(456, 456)]
  fragment : leads plainEnds [(35, 35)] (fun _ => []) [(453, 453)]

theorem plainLayout : PlainLayout := by
  constructor <;> decide

section Run

variable {s : List UInt8} {p q q' : ℕ} {c : UInt8} {v w rest : List UInt8}

/-- The rest of a path, in a segment. -/
theorem go_segments (x : Scan) (hs : s.drop p = v ++ rest) (hq : within segmentStates q = true)
    (hv : ∀ b ∈ v, within pathBytes b.toNat = true) (hrun : uriTable.run q v = some q')
    (hfinal : final q' = true) :
    within plainEnds q' = true ∧ go s p q x = go s (p + v.length) q' x := by
  obtain ⟨q₁, hq₁, hrun, hgo⟩ := go_stays (v := []) plainLayout.segment_stays x hs hq hv
    (by simpa using hrun)
  obtain rfl : q₁ = q' := by simpa [Table.run] using hrun
  refine ⟨?_, hgo⟩
  simp only [final, decide_eq_true_eq] at hfinal
  simp only [segmentStates, plainEnds, within_cons, within_nil, Bool.false_eq_true,
    or_false] at hq₁ ⊢
  omega

/-- A first segment behind a scheme or a `/`, and the path behind it. -/
theorem go_segment_first (x : Scan) (hs : s.drop p = c :: v ++ rest)
    (hq : within [(458, 458), (509, 510)] q = true) (hc : within segmentBytes c.toNat = true)
    (hv : ∀ b ∈ v, within pathBytes b.toNat = true) (hrun : uriTable.run q (c :: v) = some q')
    (hfinal : final q' = true) :
    within plainEnds q' = true ∧ go s p q x = go s (p + (c :: v).length) q' x := by
  obtain ⟨q₁, hq₁, hrun, hgo₁⟩ := go_step (x := x) plainLayout.segment_first hs hq hc hrun rfl
  obtain ⟨hends, hgo₂⟩ := go_segments x (drop_succ hs) hq₁ hv hrun hfinal
  refine ⟨hends, ?_⟩
  rw [hgo₁, hgo₂, List.length_cons, Nat.add_comm v.length, Nat.add_assoc]

theorem go_absolute (x : Scan) (hs : s.drop p = w ++ rest)
    (hq : within [(451, 451), (509, 509)] q = true)
    (hw : Derives (rule .source) [.pathAbsolute] w) (hrun : uriTable.run q w = some q')
    (hfinal : final q' = true) :
    within plainEnds q' = true ∧ go s p q x = go s (p + w.length) q' x := by
  rcases absolute_shape hw with rfl | ⟨c, v, rfl, hc, hv⟩
  · obtain ⟨q₁, hq₁, hrun, hgo⟩ := go_step (x := x) plainLayout.slash hs hq (by decide) hrun rfl
    obtain rfl : q₁ = q' := by simpa [Table.run] using hrun
    refine ⟨?_, hgo⟩
    simp only [plainEnds, within_cons, within_nil, Bool.false_eq_true, or_false] at hq₁ ⊢
    omega
  · obtain ⟨q₁, hq₁, hrun, hgo₁⟩ := go_step (x := x) plainLayout.slash hs hq (by decide) hrun rfl
    have hq₁' : within [(458, 458), (509, 510)] q₁ = true := by
      simp only [within_cons, within_nil, Bool.false_eq_true, or_false] at hq₁ ⊢
      omega
    obtain ⟨hends, hgo₂⟩ := go_segment_first x (drop_succ hs) hq₁' hc hv hrun hfinal
    refine ⟨hends, ?_⟩
    rw [hgo₁, hgo₂]
    congr 1
    simp only [List.length_cons]
    omega

/-- A path that starts like a scheme: a letter sets `mark`. -/
theorem go_noscheme (mark : Option ℕ) (u : Uri) (hs : s.drop p = w ++ rest)
    (hw : Derives (rule .source) [.pathNoscheme] w) (hrun : uriTable.run 451 w = some q')
    (hfinal : final q' = true) :
    within plainEnds q' = true ∧ ∃ mark',
      go s p 451 ⟨mark, u⟩ = go s (p + w.length) q' ⟨mark', u⟩ := by
  obtain ⟨c, v, tail, rfl, hbytes, hhead, htail⟩ := noscheme_shape hw
  rw [List.append_assoc] at hs
  have hfirst : ∃ q₁ mark', within firstStates q₁ = true ∧
      uriTable.run q₁ (v ++ tail) = some q' ∧
      go s p 451 ⟨mark, u⟩ = go s (p + 1) q₁ ⟨mark', u⟩ := by
    rcases letter_or c (hbytes c List.mem_cons_self) with hletter | hother
    · obtain ⟨hrun, hgo⟩ := go_step_eq (x := ⟨mark, u⟩) plainLayout.first_letter hs
        (within_self 451) hletter hrun rfl
      exact ⟨508, some p, by decide, hrun, hgo⟩
    · obtain ⟨q₁, hq₁, hrun, hgo⟩ := go_step (x := ⟨mark, u⟩) plainLayout.first_other hs
        (within_self 451) hother hrun rfl
      refine ⟨q₁, mark, ?_, hrun, hgo⟩
      simp only [firstStates, within_cons, within_nil, Bool.false_eq_true, or_false] at hq₁ ⊢
      omega
  obtain ⟨q₁, mark', hq₁, hrun₁, hgo₁⟩ := hfirst
  have hv₀ : s.drop (p + 1) = v ++ (tail ++ rest) := drop_succ hs
  obtain ⟨q₂, hq₂, hrun₂, hgo₂⟩ := go_stays plainLayout.first_stays ⟨mark', u⟩ hv₀ hq₁
    (fun b hb => hbytes b (List.mem_cons_of_mem c hb)) hrun₁
  have hlen : p + (c :: v ++ tail).length = p + 1 + v.length + tail.length := by
    simp only [List.cons_append, List.length_cons, List.length_append]
    omega
  rw [hlen]
  cases tail with
  | nil =>
      obtain rfl : q₂ = q' := by simpa [Table.run] using hrun₂
      refine ⟨?_, mark', hgo₁.trans hgo₂⟩
      simp only [final, decide_eq_true_eq] at hfinal
      simp only [firstStates, plainEnds, within_cons, within_nil, Bool.false_eq_true,
        or_false] at hq₂ ⊢
      omega
  | cons d tail =>
      obtain rfl : d = 47 := by simpa using hhead
      have ht₀ := drop_add hv₀
      obtain ⟨hrun₃, hgo₃⟩ := go_step_eq (x := ⟨mark', u⟩) plainLayout.first_slash ht₀ hq₂
        (by decide) hrun₂ rfl
      obtain ⟨hends, hgo₄⟩ := go_segments ⟨mark', u⟩ (drop_succ ht₀) (by decide)
        (fun b hb => htail b (List.mem_cons_of_mem _ hb)) hrun₃ hfinal
      refine ⟨hends, mark', ?_⟩
      rw [hgo₁, hgo₂, hgo₃, hgo₄, List.length_cons, Nat.add_comm tail.length, ← Nat.add_assoc]

/-- The state in which the path of a reference starts. -/
def pathStart : Option (List UInt8) → ℕ
  | none => 451
  | some _ => 509

/-- **The path** is read without an action that keeps it. -/
theorem go_plainPath {scheme : Option (List UInt8)} (mark : Option ℕ) (u : Uri)
    (hs : s.drop p = w ++ rest) (hw : PathFits (firstPath scheme) none w)
    (hrun : uriTable.run (pathStart scheme) w = some q') (hfinal : final q' = true) :
    within plainEnds q' = true ∧ ∃ mark',
      go s p (pathStart scheme) ⟨mark, u⟩ = go s (p + w.length) q' ⟨mark', u⟩ := by
  rcases hw with rfl | habs | hfirst
  · obtain rfl : pathStart scheme = q' := by simpa [Table.run] using hrun
    refine ⟨?_, mark, rfl⟩
    cases scheme <;> rfl
  · have hq : within [(451, 451), (509, 509)] (pathStart scheme) = true := by
      cases scheme <;> rfl
    obtain ⟨hends, hgo⟩ := go_absolute ⟨mark, u⟩ hs hq habs hrun hfinal
    exact ⟨hends, mark, hgo⟩
  · cases scheme with
    | none => exact go_noscheme mark u hs hfirst hrun hfinal
    | some x =>
        obtain ⟨alt, halt, h⟩ := (derives_oneOf rfl).mp hfirst
        obtain rfl := List.mem_singleton.mp halt
        obtain ⟨c, v, rfl, hc, hv⟩ := rootless_shape h
        obtain ⟨hends, hgo⟩ := go_segment_first ⟨mark, u⟩ hs rfl hc hv hrun hfinal
        exact ⟨hends, mark, hgo⟩

theorem go_schemeText {scheme : Option (List UInt8)}
    (hscheme : ∀ v ∈ scheme, Derives (rule .source) [.scheme] v)
    (hs : s = schemeText scheme ++ rest)
    (hrun : uriTable.run 451 (schemeText scheme ++ w) = some q) :
    uriTable.run (pathStart scheme) w = some q ∧
      go s 0 451 ⟨none, new⟩ = go s (schemeText scheme).length (pathStart scheme)
        ⟨none, { new with scheme := scheme.getD [] }⟩ := by
  cases scheme with
  | none => exact ⟨hrun, rfl⟩
  | some x =>
      obtain ⟨c, v, rfl, hc, hv⟩ := derives_scheme.mp (hscheme x rfl)
      simp only [schemeText, List.append_assoc, List.singleton_append] at hs hrun
      obtain ⟨hrun, hgo⟩ := go_schemeColon (u := new) hs hc hv hrun
      refine ⟨hrun, ?_⟩
      rw [hgo, schemeText, List.length_append]
      rfl

/-- The end of a reference, behind its query: a fragment, or nothing. -/
theorem create_fragmentOpt {fragment : Option (List UInt8)} {x : Scan} {u : Uri}
    (hgo : go s 0 451 ⟨none, new⟩ = go s p q x) (hs : s.drop p = optText 35 fragment)
    (hq : within [(456, 457)] q = true)
    (hacts : runActs (act s) p (endActs q) x = .ok ⟨none, u⟩) (hu : u.fragment = [])
    (hrun : uriTable.run q (optText 35 fragment) = some q') (hfinal : final q' = true) :
    create s = .ok (some { u with fragment := fragment.getD [] }) := by
  have hq' : within ((456, 457) :: pathEnds) q = true := by
    rw [within_cons] at hq ⊢
    exact hq.imp_right fun h => by cases h
  cases fragment with
  | none =>
      obtain rfl : q = q' := by simpa [optText, Table.run] using hrun
      have hsame : { u with fragment := (none : Option (List UInt8)).getD [] } = u := by
        rw [Option.getD_none, ← hu]
      rw [hsame]
      exact create_of_go hgo hs hfinal (by rw [eofActs_eq_endActs hq']; exact hacts)
  | some f =>
      obtain ⟨x', hgo', hacts'⟩ := go_fragment hs hq' hacts hrun hfinal
      refine create_of_go (hgo.trans hgo') ?_ hfinal hacts'
      rw [← List.drop_drop, hs]
      simp [optText]

/-- The same without a query, behind a path that no action keeps. -/
theorem create_plainFragment {fragment : Option (List UInt8)} {mark : Option ℕ} {u : Uri}
    (hgo : go s 0 451 ⟨none, new⟩ = go s p q ⟨mark, u⟩) (hs : s.drop p = optText 35 fragment)
    (hq : within plainEnds q = true) (hu : u.fragment = [])
    (hrun : uriTable.run q (optText 35 fragment) = some q') (hfinal : final q' = true) :
    create s = .ok (some { u with fragment := fragment.getD [] }) := by
  cases fragment with
  | none =>
      obtain rfl : q = q' := by simpa [optText, Table.run] using hrun
      have hsame : { u with fragment := (none : Option (List UInt8)).getD [] } = u := by
        rw [Option.getD_none, ← hu]
      have heof : ∀ q < 561, within plainEnds q = true → eofActs q = [] := by decide
      have hlt : q < 561 := by
        simp only [plainEnds, within_cons, within_nil, Bool.false_eq_true, or_false] at hq
        omega
      rw [hsame]
      exact create_of_go hgo hs hfinal (by rw [heof q hlt hq]; rfl)
  | some f =>
      obtain ⟨hrun, hgo₁⟩ := go_step_eq (x := ⟨mark, u⟩) plainLayout.fragment hs hq (by decide)
        hrun rfl
      obtain ⟨x', hgo₂, hacts⟩ := go_fragment_from mark u (drop_succ hs) hrun hfinal
      refine create_of_go (hgo.trans (hgo₁.trans hgo₂)) ?_ hfinal hacts
      rw [← List.drop_drop, drop_succ hs]
      simp

end Run

/-! ## `Create` on a reference without an authority -/

namespace Reference

variable (r : Reference)

theorem stages : Stages r.front r.query r.fragment :=
  stages_of_derives fun query fragment hquery hfragment => derives_reference.mpr
    ⟨{ r with
        query := query
        fragment := fragment
        query_derives := fun w hw => r.query_derives w (hquery w hw)
        fragment_derives := fun w hw => r.fragment_derives w (hfragment w hw) }, rfl⟩

/-- What is returned for a reference without an authority. -/
def plainUri : Uri :=
  { new with
    scheme := r.scheme.getD []
    query := r.query.getD []
    fragment := r.fragment.getD [] }

/-- **Without an authority** `Create` keeps the scheme, the query and the fragment. -/
theorem create_plain (hauth : r.authority = none) :
    create r.text = .ok (some r.plainUri) := by
  have hfront : r.front = schemeText r.scheme ++ r.path := by
    rw [front, hauth]
    rfl
  have htext : r.text = schemeText r.scheme ++ (r.path ++ (optText 63 r.query ++
      optText 35 r.fragment)) := by
    rw [text, hfront]
    simp
  obtain ⟨⟨q₀, hrun₀, hfinal₀⟩, ⟨q₁, hrun₁, hfinal₁⟩, q₂, hrun₂, hfinal₂⟩ := r.stages
  have hquery := run_split hrun₁ hrun₀
  have hfragment := run_split hrun₂ hrun₁
  rw [hfront] at hrun₀
  obtain ⟨hrun, hgo₁⟩ := go_schemeText r.scheme_derives htext hrun₀
  have hs₁ : r.text.drop (schemeText r.scheme).length =
      r.path ++ (optText 63 r.query ++ optText 35 r.fragment) := by
    rw [htext, List.drop_left]
  have hpath := r.path_derives
  rw [hauth] at hpath
  obtain ⟨hends, mark, hgo₂⟩ := go_plainPath none { new with scheme := r.scheme.getD [] } hs₁
    hpath hrun hfinal₀
  have hs₂ := drop_add hs₁
  cases hq : r.query with
  | none =>
      rw [hq] at hquery hs₂
      obtain rfl : q₀ = q₁ := by simpa [optText, Table.run] using hquery
      rw [create_plainFragment (hgo₁.trans hgo₂) hs₂ hends rfl hfragment hfinal₂, plainUri, hq]
      rfl
  | some w =>
      rw [hq] at hquery hs₂
      obtain ⟨hrun, hgo₃⟩ := go_step_eq
        (x := ⟨mark, { new with scheme := r.scheme.getD [] }⟩) plainLayout.query hs₂ hends
        (by decide) hquery rfl
      obtain ⟨hq₁, x, hgo₄, hacts⟩ := go_query_from mark
        { new with scheme := r.scheme.getD [] } (drop_succ hs₂)
        (queryBytes_of_derives (r.query_derives w hq)) hrun hfinal₁
      rw [create_fragmentOpt (hgo₁.trans (hgo₂.trans (hgo₃.trans hgo₄)))
        (drop_add (drop_succ hs₂)) hq₁ hacts rfl hfragment hfinal₂, plainUri, hq]
      rfl

/-- The result has the parts of the reference, with `path` for its path. -/
def Keeps (path : Uri → List UInt8) (expected : List UInt8) : Prop :=
  ∃ u, create r.text = .ok (some u) ∧ path u = expected ∧ u.query = r.query.getD [] ∧
    u.fragment = r.fragment.getD []

theorem keeps_plain_iff (hauth : r.authority = none) (path : Uri → List UInt8)
    (expected : List UInt8) : r.Keeps path expected ↔ path r.plainUri = expected := by
  constructor
  · rintro ⟨u, hu, hpath, -⟩
    rw [r.create_plain hauth] at hu
    cases hu
    exact hpath
  · intro hpath
    exact ⟨r.plainUri, r.create_plain hauth, hpath, rfl, rfl⟩

/-- **The path is lost.** Without an authority the parts are kept if and only if the path is
empty; and `getPath`, which has `/` for an empty path, gives the path also if it is `/`. -/
theorem keeps_path_iff (hauth : r.authority = none) :
    (r.Keeps Uri.path r.path ↔ r.path = []) ∧
      (r.Keeps getPath (if r.path = [] then bytes "/" else r.path) ↔
        r.path = [] ∨ r.path = bytes "/") := by
  have hslash : getPath r.plainUri = bytes "/" := if_pos rfl
  rw [r.keeps_plain_iff hauth, r.keeps_plain_iff hauth, hslash]
  refine ⟨eq_comm, ?_⟩
  split_ifs with hpath
  · exact iff_of_true rfl (Or.inl hpath)
  · rw [or_iff_right hpath, eq_comm]

end Reference

/-- The reference `a:?b`. -/
def onlyQuery : Reference where
  scheme := some (bytes "a")
  authority := none
  path := []
  query := some (bytes "b")
  fragment := none
  scheme_derives := by
    rintro v ⟨⟩
    exact derives_of_recognize 400 (by decide)
  path_derives := Or.inl rfl
  query_derives := by
    rintro w ⟨⟩
    exact derives_of_recognize 400 (by decide)
  fragment_derives := by simp

theorem Reference.keeps_path_iff_query : onlyQuery.text = bytes "a:?b" ∧
    (onlyQuery.Keeps Uri.path [] ↔ onlyQuery.path = []) :=
  ⟨by decide, (onlyQuery.keeps_path_iff rfl).1⟩

/-- The reference `a:b`. -/
def rootless : Reference where
  scheme := some (bytes "a")
  authority := none
  path := bytes "b"
  query := none
  fragment := none
  scheme_derives := by
    rintro v ⟨⟩
    exact derives_of_recognize 400 (by decide)
  path_derives := Or.inr (Or.inr (derives_of_recognize 400 (by decide)))
  query_derives := by simp
  fragment_derives := by simp

/-- Of `a:b` the path is not kept. -/
theorem Reference.rootless_path_lost : rootless.text = bytes "a:b" ∧
    create (bytes "a:b") = .ok (some ⟨bytes "a", [], [], [], [], [], 0⟩) ∧
    ¬rootless.Keeps Uri.path rootless.path ∧ ¬rootless.Keeps getPath rootless.path := by
  refine ⟨by decide, by decide, ?_, ?_⟩
  · rw [rootless.keeps_plain_iff rfl]
    decide
  · rw [rootless.keeps_plain_iff rfl]
    decide

end Uri

end Skt
