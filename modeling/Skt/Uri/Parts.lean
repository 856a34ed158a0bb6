import Skt.Uri.Grammar
import Skt.Uri.Run

/-!
# The parts of a URI with an authority

A `Parts` carries the substrings of `scheme "://" [userinfo "@"] host [":" port]
path-abempty ["?" query] ["#" fragment]` with their derivations. `exists_parts`
finds them in every string of this form that the automaton accepts;
`create_text` says what `Create` makes of them.
-/

namespace Skt

namespace Uri

open Lib Lib.CString Lib.Ragel Lib.Grammar UriGrammar

/-! ## Bytes of the symbols -/

variable {d : Dialect} {w : List UInt8}

theorem derives_lit (c : UInt8) : Derives (rule d) [.lit c.toNat] w ↔ w = [c] := by
  rw [derives_byte (G := rule d) (n := .lit c.toNat) rfl]
  constructor
  · rintro ⟨c', rfl, hc⟩
    rw [UInt8.toNat_inj.mp (within_iff_eq.mp hc)]
  · rintro rfl
    exact ⟨c, rfl, within_self _⟩

theorem derives_scheme : Derives (rule d) [.scheme] w ↔
    ∃ c v, w = c :: v ∧ within [(65, 90), (97, 122)] c.toNat = true ∧
      ∀ b ∈ v, within schemeBytes b.toNat = true := by
  have htail : ∀ v, Derives (rule d) [.schemeTail] v ↔
      ∀ b ∈ v, within schemeBytes b.toNat = true :=
    fun v => derives_bytes (G := rule d) (m := .schemeByte) rfl rfl
  rw [derives_oneOf (G := rule d) (n := .scheme) rfl]
  constructor
  · rintro ⟨a, ha, h⟩
    obtain rfl := List.mem_singleton.mp ha
    obtain ⟨u, v, rfl, hu, hv⟩ := derives_cons.mp h
    obtain ⟨c, rfl, hc⟩ := (derives_byte (G := rule d) (n := .alpha) rfl).mp hu
    exact ⟨c, v, rfl, hc, (htail v).mp hv⟩
  · rintro ⟨c, v, rfl, hc, hv⟩
    refine ⟨_, List.mem_singleton_self _, ?_⟩
    exact .byte rfl hc ((htail v).mpr hv)

/-- The symbols of a `userinfo`. -/
def userSymbols : List Symbol :=
  [.userinfo, .userByte, .unreserved, .pctEncoded, .subDelims, .lit 58, .lit 37, .xdigit]

theorem userBytes_of_derives (h : Derives (rule d) [.userinfo] w) :
    ∀ c ∈ w, within userBytes c.toNat = true :=
  h.within_of_closed (T := userSymbols) (by cases d <;> decide) (by decide)

theorem derives_port :
    Derives (rule d) [.port] w ↔ ∀ c ∈ w, (digit 10 c).isSome = true := by
  rw [derives_bytes (G := rule d) (n := .port) (m := .digit) rfl rfl]
  refine forall₂_congr fun c _ => ?_
  rw [isSome_digit_iff]
  simp [within]

/-- The symbols of a path behind an authority. -/
def pathSymbols : List Symbol :=
  [.pathAbempty, .slashSegment, .pathSegment, .pchar, .nonAscii, .unreserved, .pctEncoded,
    .subDelims, .lit 58, .lit 64, .lit 47, .lit 37, .xdigit]

theorem pathBytes_of_derives (h : Derives (rule d) [.pathAbempty] w) :
    ∀ c ∈ w, within pathBytes c.toNat = true :=
  h.within_of_closed (T := pathSymbols) (by cases d <;> decide) (by decide)

theorem head_of_path (h : Derives (rule d) [.pathAbempty] w) : w = [] ∨ w.head? = some 47 := by
  obtain ⟨a, ha, h⟩ := (derives_oneOf rfl).mp h
  rcases List.mem_cons.mp ha with rfl | ha
  · exact Or.inl (derives_nil.mp h)
  · obtain rfl := List.mem_singleton.mp ha
    obtain ⟨u, v, rfl, hu, -⟩ := derives_cons.mp h
    obtain ⟨a, ha, hu⟩ := (derives_oneOf rfl).mp hu
    obtain rfl := List.mem_singleton.mp ha
    obtain ⟨u, v', rfl, hu, -⟩ := derives_cons.mp hu
    obtain rfl := (derives_lit 47).mp hu
    exact Or.inr rfl

/-- The symbols of a query and of a fragment. -/
def querySymbols : List Symbol := [.query, .fragment, .queryByte, .lit 63] ++ pathSymbols

theorem queryBytes_of_derives (h : Derives (rule d) [.query] w) :
    ∀ c ∈ w, within queryBytes c.toNat = true :=
  h.within_of_closed (T := querySymbols) (by cases d <;> decide) (by decide)

/-- The symbols inside of an IP literal. -/
def literalSymbols : List Symbol :=
  [.ipv6Address, .h16Colon, .h16, .hex3, .hex2, .hex1, .xdigit, .ls32, .h16s1, .h16s2,
    .h16s3, .h16s4, .h16s5, .h16s6, .h16s7, .ipv4Address, .decOctet, .digit, .nonzero,
    .upTo4, .upTo5, .two, .version, .lit 46, .lit 49, .lit 50, .lit 53, .lit 58,
    .ipvFuture, .xdigits, .futureByte, .futureBytes, .unreserved, .subDelims]

theorem literal_of_derives {k : Symbol} (hk : k ∈ literalSymbols)
    (h : Derives (rule .source) [.lit 91, k, .lit 93] w) :
    ∃ v, w = 91 :: v ++ [93] ∧ ∀ c ∈ v, within literalBytes c.toNat = true := by
  obtain ⟨a, w, rfl, ha, h⟩ := derives_cons.mp h
  obtain ⟨v, b, rfl, hv, hb⟩ := derives_cons.mp h
  obtain rfl := (derives_lit 91).mp ha
  obtain rfl := (derives_lit 93).mp hb
  refine ⟨v, rfl, hv.within_of_closed (T := literalSymbols) (by decide) ?_⟩
  simpa using hk

theorem hostText_of_derives (h : Derives (rule .source) [.host] w) : HostText w := by
  obtain ⟨a, ha, h⟩ := (derives_oneOf rfl).mp h
  simp only [List.mem_cons, List.not_mem_nil, or_false] at ha
  rcases ha with rfl | rfl | rfl
  · obtain ⟨a, ha, h⟩ := (derives_oneOf rfl).mp h
    simp only [List.mem_cons, List.not_mem_nil, or_false] at ha
    rcases ha with rfl | rfl
    · exact Or.inr (literal_of_derives (by decide) h)
    · exact Or.inr (literal_of_derives (by decide) h)
  · exact Or.inl (h.within_of_closed (T := [.ipv4Address, .decOctet, .digit, .nonzero,
      .upTo4, .upTo5, .two, .lit 46, .lit 49, .lit 50, .lit 53]) (by decide) (by decide))
  · exact Or.inl (h.within_of_closed (T := [.regName, .regByte, .unreserved, .pctEncoded,
      .subDelims, .lit 37, .xdigit]) (by decide) (by decide))

/-! ## Texts -/

/-- An optional part behind its delimiter. -/
def optText (c : UInt8) : Option (List UInt8) → List UInt8
  | none => []
  | some w => c :: w

def userText : Option (List UInt8) → List UInt8
  | none => []
  | some w => w ++ [64]

structure Parts (d : Dialect) where
  scheme : List UInt8
  userinfo : Option (List UInt8)
  host : List UInt8
  port : Option (List UInt8)
  path : List UInt8
  query : Option (List UInt8)
  fragment : Option (List UInt8)
  scheme_derives : Derives (rule d) [.scheme] scheme
  userinfo_derives : ∀ w ∈ userinfo, Derives (rule d) [.userinfo] w
  host_derives : Derives (rule d) [.host] host
  port_derives : ∀ w ∈ port, Derives (rule d) [.port] w
  path_derives : Derives (rule d) [.pathAbempty] path
  query_derives : ∀ w ∈ query, Derives (rule d) [.query] w
  fragment_derives : ∀ w ∈ fragment, Derives (rule d) [.fragment] w

namespace Parts

variable (p : Parts d)

/-- `[userinfo "@"] host [":" port]`. -/
def authority : List UInt8 := userText p.userinfo ++ p.host ++ optText 58 p.port

/-- The text up to the end of the path. -/
def front : List UInt8 := p.scheme ++ 58 :: 47 :: 47 :: (p.authority ++ p.path)

def text : List UInt8 := p.front ++ optText 63 p.query ++ optText 35 p.fragment

end Parts

/-! ## Parts and derivations -/

theorem derives_opt {n m : Symbol} {c : UInt8}
    (hn : rule d n = .oneOf [[], [.lit c.toNat, m]]) :
    Derives (rule d) [n] w ↔
      ∃ o, w = optText c o ∧ ∀ v ∈ o, Derives (rule d) [m] v := by
  rw [derives_oneOf hn]
  constructor
  · rintro ⟨a, ha, h⟩
    simp only [List.mem_cons, List.not_mem_nil, or_false] at ha
    rcases ha with rfl | rfl
    · exact ⟨none, derives_nil.mp h, by simp⟩
    · obtain ⟨u, v, rfl, hu, hv⟩ := derives_cons.mp h
      rw [(derives_lit c).mp hu]
      exact ⟨some v, rfl, by simpa using hv⟩
  · rintro ⟨o, rfl, ho⟩
    cases o with
    | none => exact ⟨[], by simp, .nil⟩
    | some v =>
        refine ⟨[.lit c.toNat, m], by simp, ?_⟩
        exact derives_cons.mpr ⟨[c], v, rfl, (derives_lit c).mpr rfl, ho v rfl⟩

theorem derives_userinfoOpt :
    Derives (rule d) [.userinfoOpt] w ↔
      ∃ o, w = userText o ∧ ∀ v ∈ o, Derives (rule d) [.userinfo] v := by
  rw [derives_oneOf rfl]
  constructor
  · rintro ⟨a, ha, h⟩
    simp only [List.mem_cons, List.not_mem_nil, or_false] at ha
    rcases ha with rfl | rfl
    · exact ⟨none, derives_nil.mp h, by simp⟩
    · obtain ⟨u, v, rfl, hu, hv⟩ := derives_cons.mp h
      rw [(derives_lit 64).mp hv]
      exact ⟨some u, rfl, by simpa using hu⟩
  · rintro ⟨o, rfl, ho⟩
    cases o with
    | none => exact ⟨[], by simp, .nil⟩
    | some v =>
        refine ⟨[.userinfo, .lit 64], by simp, ?_⟩
        exact derives_cons.mpr ⟨v, [64], rfl, ho v rfl, (derives_lit 64).mpr rfl⟩

theorem derives_authority :
    Derives (rule d) [.authority] w ↔
      ∃ user host port, w = userText user ++ host ++ optText 58 port ∧
        (∀ v ∈ user, Derives (rule d) [.userinfo] v) ∧ Derives (rule d) [.host] host ∧
        ∀ v ∈ port, Derives (rule d) [.port] v := by
  rw [derives_oneOf rfl]
  constructor
  · rintro ⟨a, ha, h⟩
    obtain rfl := List.mem_singleton.mp ha
    obtain ⟨u, v, rfl, hu, h⟩ := derives_cons.mp h
    obtain ⟨host, v, rfl, hhost, hv⟩ := derives_cons.mp h
    obtain ⟨user, rfl, huser⟩ := derives_userinfoOpt.mp hu
    obtain ⟨port, rfl, hport⟩ := (derives_opt (c := 58) rfl).mp hv
    exact ⟨user, host, port, by simp, huser, hhost, hport⟩
  · rintro ⟨user, host, port, rfl, huser, hhost, hport⟩
    refine ⟨_, List.mem_singleton_self _, ?_⟩
    rw [List.append_assoc]
    exact derives_cons.mpr ⟨_, _, rfl, derives_userinfoOpt.mpr ⟨user, rfl, huser⟩,
      derives_cons.mpr ⟨host, _, rfl, hhost,
        (derives_opt (c := 58) rfl).mpr ⟨port, rfl, hport⟩⟩⟩

/-- What is left behind `"://"`, in parts. -/
theorem derives_rest :
    Derives (rule d) [.authority, .pathAbempty, .queryOpt, .fragmentOpt] w ↔
      ∃ auth path query fragment, w = auth ++ path ++ optText 63 query ++ optText 35 fragment ∧
        Derives (rule d) [.authority] auth ∧ Derives (rule d) [.pathAbempty] path ∧
        (∀ v ∈ query, Derives (rule d) [.query] v) ∧
        ∀ v ∈ fragment, Derives (rule d) [.fragment] v := by
  constructor
  · intro h
    obtain ⟨auth, w, rfl, hauth, h⟩ := derives_cons.mp h
    obtain ⟨path, w, rfl, hpath, h⟩ := derives_cons.mp h
    obtain ⟨u, v, rfl, hu, hv⟩ := derives_cons.mp h
    obtain ⟨query, rfl, hquery⟩ := (derives_opt (c := 63) rfl).mp hu
    obtain ⟨fragment, rfl, hfragment⟩ := (derives_opt (c := 35) rfl).mp hv
    exact ⟨auth, path, query, fragment, by simp, hauth, hpath, hquery, hfragment⟩
  · rintro ⟨auth, path, query, fragment, rfl, hauth, hpath, hquery, hfragment⟩
    rw [List.append_assoc, List.append_assoc]
    exact derives_cons.mpr ⟨auth, _, rfl, hauth, derives_cons.mpr ⟨path, _, rfl, hpath,
      derives_cons.mpr ⟨_, _, rfl, (derives_opt (c := 63) rfl).mpr ⟨query, rfl, hquery⟩,
        (derives_opt (c := 35) rfl).mpr ⟨fragment, rfl, hfragment⟩⟩⟩⟩

theorem Parts.authority_derives (p : Parts d) : Derives (rule d) [.authority] p.authority :=
  derives_authority.mpr ⟨p.userinfo, p.host, p.port, rfl, p.userinfo_derives, p.host_derives,
    p.port_derives⟩

/-- Parts make a URI reference. -/
theorem Parts.text_derives (p : Parts d) : Derives (rule d) [.uriReference] p.text := by
  have hrest := derives_rest.mpr ⟨p.authority, p.path, p.query, p.fragment, rfl,
    p.authority_derives, p.path_derives, p.query_derives, p.fragment_derives⟩
  obtain ⟨auth, rest, hsplit, hauth, hrest⟩ := derives_cons.mp hrest
  obtain ⟨path, rest, rfl, hpath, hrest⟩ := derives_cons.mp hrest
  have hhier : Derives (rule d) [.hierPart] (47 :: 47 :: (auth ++ path)) := by
    refine (derives_oneOf rfl).mpr ⟨_, List.mem_cons_self, ?_⟩
    exact derives_cons.mpr ⟨[47], _, rfl, (derives_lit 47).mpr rfl,
      derives_cons.mpr ⟨[47], _, rfl, (derives_lit 47).mpr rfl,
        derives_cons.mpr ⟨auth, path, rfl, hauth, hpath⟩⟩⟩
  have htext : p.text = p.scheme ++ ([58] ++ (47 :: 47 :: (auth ++ path) ++ rest)) := by
    simp only [List.append_assoc] at hsplit
    simp [Parts.text, Parts.front, hsplit]
  refine (derives_oneOf rfl).mpr ⟨_, List.mem_cons_self, ?_⟩
  refine (derives_oneOf rfl).mpr ⟨_, List.mem_cons_self, ?_⟩
  rw [htext]
  exact derives_cons.mpr ⟨p.scheme, _, rfl, p.scheme_derives,
    derives_cons.mpr ⟨[58], _, rfl, (derives_lit 58).mpr rfl,
      derives_cons.mpr ⟨_, _, rfl, hhier, hrest⟩⟩⟩

/-! ## The run over the parts -/

theorem run_of_accepts {q : ℕ} {w : List UInt8} (h : uriTable.accepts final q w = true) :
    ∃ q', uriTable.run q w = some q' ∧ final q' = true := by
  rw [Table.accepts, Option.any_eq_true] at h
  exact h

/-- A text that ends in a final state behind its path, its query and its fragment. -/
structure Stages (front : List UInt8) (query fragment : Option (List UInt8)) : Prop where
  run_front : ∃ q, uriTable.run 451 front = some q ∧ final q = true
  run_query : ∃ q, uriTable.run 451 (front ++ optText 63 query) = some q ∧ final q = true
  run_text : ∃ q, uriTable.run 451 (front ++ optText 63 query ++ optText 35 fragment) = some q ∧
    final q = true

/-- It is enough that the query and the fragment may be left out. -/
theorem stages_of_derives {front : List UInt8} {query fragment : Option (List UInt8)}
    (h : ∀ query' fragment', (∀ w ∈ query', w ∈ query) → (∀ w ∈ fragment', w ∈ fragment) →
      Derives (rule .source) [.uriReference]
        (front ++ optText 63 query' ++ optText 35 fragment')) :
    Stages front query fragment := by
  have hrun := fun query' fragment' hquery hfragment =>
    run_of_accepts ((uriTable_accepts _).mpr (h query' fragment' hquery hfragment))
  refine ⟨?_, ?_, hrun query fragment (fun _ => id) fun _ => id⟩
  · simpa [optText] using hrun none none (by simp) (by simp)
  · simpa [optText] using hrun query none (fun _ => id) (by simp)

/-- Every part of an authority ends in a final state. -/
theorem run_authority {auth path : List UInt8} (hauth : Derives (rule .source) [.authority] auth)
    (hpath : Derives (rule .source) [.pathAbempty] path) :
    ∃ q, uriTable.run 511 (auth ++ path) = some q ∧ final q = true := by
  refine run_of_accepts ((uriTable_accepts_authority _).mpr ?_)
  exact derives_rest.mpr ⟨auth, path, none, none, by simp [optText], hauth, hpath, by simp,
    by simp⟩

theorem run_split {u v : List UInt8} {q q₁ q₂ : ℕ} (h : uriTable.run q (u ++ v) = some q₂)
    (hu : uriTable.run q u = some q₁) : uriTable.run q₁ v = some q₂ := by
  rw [Table.run_append, hu] at h
  exact h

/-- The value that `save_port` stores, with what follows the port. -/
def portValue (after : List UInt8) : Option (List UInt8) → ℤ
  | none => 0
  | some [] => 0
  | some (d :: ds) => atoi (d :: ds ++ after)

namespace Parts

/-- The parts up to the path. -/
def bare (p : Parts d) : Parts d :=
  { p with
    query := none
    fragment := none
    query_derives := by simp
    fragment_derives := by simp }

/-- The `Uri` behind the path. -/
def frontUri (p : Parts d) (after : List UInt8) : Uri where
  scheme := p.scheme
  userinfo := (p.userinfo.map savedUserinfo).getD []
  host := p.host
  path := p.path
  query := []
  fragment := []
  port := portValue after p.port

variable {s : List UInt8} (p : Parts .source)

/-- The text up to the path, the query and the fragment ends in final states. -/
theorem stages : Stages p.front p.query p.fragment :=
  stages_of_derives fun query fragment hquery hfragment => Parts.text_derives
    { p with
      query := query
      fragment := fragment
      query_derives := fun w hw => p.query_derives w (hquery w hw)
      fragment_derives := fun w hw => p.fragment_derives w (hfragment w hw) }

theorem go_user {rest v : List UInt8} {i q : ℕ} {u : Uri}
    (hs : s.drop i = userText p.userinfo ++ rest)
    (hrun : uriTable.run 511 (userText p.userinfo ++ v) = some q) :
    ∃ q₀ host, within [(511, 511), (522, 522)] q₀ = true ∧ uriTable.run q₀ v = some q ∧
      go s i 511 ⟨none, u⟩ = go s (i + (userText p.userinfo).length) q₀
        ⟨none, { u with userinfo := (p.userinfo.map savedUserinfo).getD u.userinfo
                        host := host }⟩ := by
  have hderives := p.userinfo_derives
  cases huser : p.userinfo with
  | none =>
      rw [huser] at hrun
      exact ⟨511, u.host, by decide, hrun, rfl⟩
  | some w =>
      rw [huser] at hs hrun
      simp only [userText, List.append_assoc, List.singleton_append] at hs hrun
      obtain ⟨hrun, host, hgo⟩ := go_userinfo (u := u) hs
        (userBytes_of_derives (hderives w huser)) hrun
      refine ⟨522, host, by decide, hrun, ?_⟩
      rw [hgo]
      simp [userText, Nat.add_assoc]

theorem hostEnds_subset {q : ℕ} (h : within hostEnds q = true) :
    within authorityEnds q = true := by
  simp only [hostEnds, authorityEnds, within_cons, within_nil, Bool.false_eq_true,
    or_false] at h ⊢
  omega

/-- The port, or the end of a host without one. -/
theorem go_portOpt {rest : List UInt8} {i q q' m : ℕ} {u : Uri} {x : Scan}
    (hs : s.drop i = optText 58 p.port ++ rest) (hq : within hostEnds q = true)
    (hslash : runActs (act s) i (slashActs q) x = .ok ⟨some i, u⟩)
    (hcolon : runActs (act s) i (colonActs q) x = .ok ⟨some m, u⟩) (hu : u.port = 0)
    (hrun : uriTable.run q (optText 58 p.port ++ p.path) = some q') :
    ∃ q₁ x₁, within authorityEnds q₁ = true ∧ uriTable.run q₁ p.path = some q' ∧
      go s i q x = go s (i + (optText 58 p.port).length) q₁ x₁ ∧
      runActs (act s) (i + (optText 58 p.port).length) (slashActs q₁) x₁ =
        .ok ⟨if p.port = some [] then none else some (i + (optText 58 p.port).length),
          { u with port := portValue rest p.port }⟩ := by
  have hderives := p.port_derives
  cases hport : p.port with
  | none =>
      rw [hport] at hrun
      refine ⟨q, x, hostEnds_subset hq, hrun, rfl, ?_⟩
      simp only [optText, List.length_nil, Nat.add_zero, hslash, portValue, ← hu]
      rfl
  | some ds =>
      rw [hport] at hs hrun
      obtain ⟨q₁, x₁, hq₁, hrun, hgo, hacts⟩ := go_port hs hq hcolon
        (derives_port.mp (hderives ds hport)) hrun
      refine ⟨q₁, x₁, hq₁, hrun, hgo, ?_⟩
      simp only [optText, hacts, Option.some.injEq]
      cases ds with
      | nil => simp [portValue, hu]
      | cons d ds => simp [portValue]

theorem go_authority {rest : List UInt8} {i q : ℕ}
    (hs : s.drop i = p.authority ++ rest)
    (hrun : uriTable.run 511 (p.authority ++ p.path) = some q) :
    ∃ q₁ x₁, within authorityEnds q₁ = true ∧ uriTable.run q₁ p.path = some q ∧
      go s i 511 ⟨none, { new with scheme := p.scheme }⟩ =
        go s (i + p.authority.length) q₁ x₁ ∧
      runActs (act s) (i + p.authority.length) (slashActs q₁) x₁ =
        .ok ⟨if p.port = some [] then none else some (i + p.authority.length),
          { p.frontUri rest with path := [] }⟩ := by
  have hauth : p.authority = userText p.userinfo ++ p.host ++ optText 58 p.port := rfl
  have hnopath : Derives (rule .source) [.pathAbempty] [] :=
    .oneOf rfl List.mem_cons_self .nil
  obtain ⟨q₁, hrun₁, hfinal₁⟩ := run_authority (derives_authority.mpr
    ⟨p.userinfo, p.host, none, rfl, p.userinfo_derives, p.host_derives, by simp⟩) hnopath
  simp only [optText, List.append_nil] at hrun₁
  rw [hauth, List.append_assoc _ (optText 58 p.port) p.path] at hrun
  have hrun₂ := run_split hrun hrun₁
  rw [hauth, List.append_assoc, List.append_assoc] at hs
  obtain ⟨q₀, host, hq₀, hrun₀, hgo₀⟩ := p.go_user (u := { new with scheme := p.scheme }) hs
    hrun₁
  obtain ⟨hends, x, hgo₁, hslash, hcolon⟩ := go_host
    (u := { new with scheme := p.scheme
                     userinfo := (p.userinfo.map savedUserinfo).getD []
                     host := host })
    (drop_add hs) hq₀ (hostText_of_derives p.host_derives) hrun₀ hfinal₁
  obtain ⟨q₂, x₂, hq₂, hrun₃, hgo₂, hacts⟩ := p.go_portOpt (drop_add (drop_add hs)) hends
    hslash hcolon rfl hrun₂
  have hlen : i + p.authority.length =
      i + (userText p.userinfo).length + p.host.length + (optText 58 p.port).length := by
    rw [hauth, List.length_append, List.length_append]
    omega
  rw [hlen]
  exact ⟨q₂, x₂, hq₂, hrun₃, hgo₀.trans (hgo₁.trans hgo₂), hacts⟩

/-- **Up to the path.** With an empty port `mark` is null when the path is to be
saved. -/
theorem go_front {rest : List UInt8} (hs : s = p.front ++ rest) :
    ∃ q x, uriTable.run 451 p.front = some q ∧ within pathEnds q = true ∧
      go s 0 451 ⟨none, new⟩ = go s p.front.length q x ∧
      runActs (act s) p.front.length (endActs q) x =
        if p.port = some [] then .error .nullString
        else .ok ⟨none, p.frontUri (p.path ++ rest)⟩ := by
  obtain ⟨q, hrun, hfinal⟩ := p.stages.run_front
  obtain ⟨c, v, hscheme, hc, hv⟩ := derives_scheme.mp p.scheme_derives
  have hfront : p.front = p.scheme ++ 58 :: 47 :: 47 :: (p.authority ++ p.path) := rfl
  have hs₀ : s = c :: v ++ 58 :: 47 :: 47 :: (p.authority ++ (p.path ++ rest)) := by
    rw [hs, hfront, hscheme]
    simp
  have hrun₀ := hrun
  rw [hfront, hscheme] at hrun₀
  obtain ⟨hrun₁, hgo₀⟩ := go_scheme (u := new) hs₀ hc hv hrun₀
  have hs₁ : s.drop ((c :: v).length + 3) = p.authority ++ (p.path ++ rest) := by
    rw [hs₀]
    simp
  rw [← hscheme] at hgo₀ hs₁
  obtain ⟨q₁, x₁, hq₁, hrun₂, hgo₁, hacts₁⟩ := p.go_authority hs₁ hrun₁
  obtain ⟨hends, x₂, hgo₂, hacts₂⟩ := go_path (drop_add hs₁) hq₁ hacts₁
    (head_of_path p.path_derives) (pathBytes_of_derives p.path_derives) hrun₂ hfinal
  have hlen : p.front.length = p.scheme.length + 3 + p.authority.length + p.path.length := by
    simp only [hfront, List.length_append, List.length_cons]
    omega
  refine ⟨q, x₂, hrun, hends, ?_, ?_⟩
  · rw [hlen, hgo₀, hgo₁, hgo₂]
  · rw [hlen, hacts₂]
    split_ifs with hport
    · rfl
    · rw [marked_drop (drop_add hs₁)]
      rfl

/-- The `Uri` that `Create` returns. -/
def uri (p : Parts d) : Uri :=
  { p.frontUri [] with
    query := p.query.getD []
    fragment := p.fragment.getD [] }

theorem digit_of_head {w v : List UInt8} (hw : w = [] ∨ w.head? = some 47)
    (hv : ∀ c ∈ v.head?, digit 10 c = none) : ∀ c ∈ (w ++ v).head?, digit 10 c = none := by
  rcases hw with rfl | hw
  · exact hv
  · intro c hc
    rw [List.head?_append, hw] at hc
    obtain rfl : 47 = c := by simpa using hc
    decide

/-- Only the digits of the port matter for its value. -/
theorem portValue_eq {after : List UInt8} (hafter : ∀ c ∈ after.head?, digit 10 c = none) :
    portValue after p.port = portValue [] p.port := by
  have hderives := p.port_derives
  cases hport : p.port with
  | none => rfl
  | some ds =>
      cases ds with
      | nil => rfl
      | cons e ds =>
          have hds := derives_port.mp (hderives (e :: ds) hport)
          rw [portValue, portValue, atoi_digits (List.cons_ne_nil e ds) hds hafter,
            atoi_digits (List.cons_ne_nil e ds) hds (by simp)]

theorem digit_of_optText {c : UInt8} (hc : digit 10 c = none) {o : Option (List UInt8)}
    {v : List UInt8} (hv : ∀ e ∈ v.head?, digit 10 e = none) :
    ∀ e ∈ (optText c o ++ v).head?, digit 10 e = none := by
  cases o with
  | none => exact hv
  | some w =>
      intro e he
      obtain rfl : c = e := by simpa [optText] using he
      exact hc

theorem frontUri_eq :
    p.frontUri (p.path ++ (optText 63 p.query ++ optText 35 p.fragment)) = p.frontUri [] := by
  unfold frontUri
  rw [p.portValue_eq]
  refine digit_of_head (head_of_path p.path_derives) ?_
  refine digit_of_optText (by decide) ?_
  simpa using digit_of_optText (c := 35) (o := p.fragment) (v := []) (by decide) (by simp)

theorem go_queryOpt {rest : List UInt8} {q q' : ℕ} {u : Uri} {x : Scan}
    (hs : s = p.front ++ optText 63 p.query ++ rest) (hq : within pathEnds q = true)
    (hacts : runActs (act s) p.front.length (endActs q) x = .ok ⟨none, u⟩)
    (hu : u.query = []) (hrun : uriTable.run q (optText 63 p.query) = some q')
    (hfinal : final q' = true) :
    within ((456, 457) :: pathEnds) q' = true ∧ ∃ x',
      go s p.front.length q x = go s (p.front ++ optText 63 p.query).length q' x' ∧
      runActs (act s) (p.front ++ optText 63 p.query).length (endActs q') x' =
        .ok ⟨none, { u with query := p.query.getD [] }⟩ := by
  have hderives := p.query_derives
  have hs₀ : s.drop p.front.length = optText 63 p.query ++ rest := by
    rw [hs, List.append_assoc, List.drop_left]
  rw [List.length_append]
  cases hquery : p.query with
  | none =>
      rw [hquery] at hrun
      obtain rfl : q = q' := by simpa [optText, Table.run] using hrun
      refine ⟨within_cons.mpr (Or.inr hq), x, rfl, ?_⟩
      have hsame : ({ u with query := [] } : Uri) = u := by rw [← hu]
      rw [Option.getD_none, hsame]
      exact hacts
  | some w =>
      rw [hquery] at hs₀ hrun
      obtain ⟨hq', x', hgo, hacts'⟩ := go_query hs₀ hq hacts
        (queryBytes_of_derives (hderives w hquery)) hrun hfinal
      refine ⟨?_, x', hgo, hacts'⟩
      simp only [within_cons, within_nil, Bool.false_eq_true, or_false] at hq' ⊢
      exact Or.inl hq'

/-- **`Create` on the parts**, unless the port is there and empty. -/
theorem create_text (hport : p.port ≠ some []) : create p.text = .ok (some p.uri) := by
  have htext : p.text = p.front ++ optText 63 p.query ++ optText 35 p.fragment := rfl
  have hfront : p.text = p.front ++ (optText 63 p.query ++ optText 35 p.fragment) := by
    rw [htext, List.append_assoc]
  obtain ⟨q₀, x₀, hrun₀, hq₀, hgo₀, hacts₀⟩ := p.go_front hfront
  rw [if_neg hport, p.frontUri_eq] at hacts₀
  obtain ⟨q₁, hrun₁, hfinal₁⟩ := p.stages.run_query
  obtain ⟨hq₁, x₁, hgo₁, hacts₁⟩ := p.go_queryOpt htext hq₀ hacts₀ rfl
    (run_split hrun₁ hrun₀) hfinal₁
  have hs₁ : p.text.drop (p.front ++ optText 63 p.query).length = optText 35 p.fragment := by
    rw [htext, List.drop_left]
  have hgo := hgo₀.trans hgo₁
  cases hfragment : p.fragment with
  | none =>
      rw [hfragment] at hs₁
      have hcreate := create_of_go hgo hs₁ hfinal₁
        (by rw [eofActs_eq_endActs hq₁]; exact hacts₁)
      rw [hcreate, uri, hfragment]
      rfl
  | some w =>
      rw [hfragment] at hs₁
      obtain ⟨q₂, hrun₂, hfinal₂⟩ := p.stages.run_text
      rw [hfragment] at hrun₂
      obtain ⟨x₂, hgo₂, hacts₂⟩ := go_fragment hs₁ hq₁ hacts₁ (run_split hrun₂ hrun₁) hfinal₂
      have hcreate := create_of_go (hgo.trans hgo₂) (by rw [← List.drop_drop, hs₁]; simp [optText])
        hfinal₂ hacts₂
      rw [hcreate, uri, hfragment]
      rfl

end Parts

end Uri

end Skt
