import Skt.Uri.EmptyPort

/-!
# The fields of a parsed URI

For parts derived by the rules of the RFC, `Create` returns exactly these parts
unless a digit stands behind the first `:` of the `userinfo`, or the host is an IP
literal that needs an octet from 200 to 249 or a capital `V`, or that has groups in
front of a `::`, but not as many as there can be.
-/

namespace Skt

set_option maxRecDepth 4000

namespace Uri

open Lib Lib.CString Lib.Ragel Lib.Grammar UriGrammar

/-! ## Dialects -/

/-- The symbols that the dialects read alike. -/
def neutral (n : Symbol) : Bool :=
  n ∉ [Symbol.two, .version, .ipv4Address, .h16s2, .h16s3, .h16s4, .h16s5, .h16s6, .h16s7]

theorem rule_eq_of_neutral (d d' : Dialect) {n : Symbol} (h : neutral n = true) :
    rule d n = rule d' n := by
  cases n with
  | two | version | ipv4Address | h16s2 | h16s3 | h16s4 | h16s5 | h16s6 | h16s7 => cases h
  | _ => rfl

theorem derives_of_neutral {d d' : Dialect} {T : List Symbol}
    (hT : closed (rule d) T [(0, 255)] = true) (hneutral : T.all neutral = true) {k : List Symbol}
    {w : List UInt8} (h : Derives (rule d) k w) (hk : ∀ n ∈ k, n ∈ T) :
    Derives (rule d') k w :=
  h.transfer hT (fun n hn => rule_eq_of_neutral d d' (List.all_eq_true.mp hneutral n hn)) hk

/-- A derivation in which nothing depends on the byte `2` of `dec_octet`. -/
theorem derives_shared {k : List Symbol} {w : List UInt8} (h : Derives (rule .source) k w)
    (hw : ∀ c ∈ w, c ≠ 2) : Derives (rule .shared) k w := by
  refine h.mono ?_ ?_ hw
  · intro n on c hn hc hne
    cases n with
    | two =>
        cases hn
        exact absurd (UInt8.toNat_inj.mp (within_iff_eq.mp hc : c.toNat = (2 : UInt8).toNat)) hne
    | ipv4Address => cases hn
    | _ => exact ⟨on, hn, hc⟩
  · intro n alternatives hn
    cases n with
    | two | version => cases hn
    | _ => exact ⟨alternatives, hn, List.Subset.refl _⟩

theorem append_fewer_subset {N : Type} (d : Dialect) (l m : List (List N)) :
    l ++ Dialect.shared.fewer m ⊆ l ++ d.fewer m := by
  show l ++ [] ⊆ l ++ d.fewer m
  rw [List.append_nil]
  exact List.subset_append_left _ _

/-- What the dialects share is derived by both of them. -/
theorem derives_of_shared {d : Dialect} (hd : d ≠ .hole) {k : List Symbol} {w : List UInt8}
    (h : Derives (rule .shared) k w) : Derives (rule d) k w := by
  refine h.mono (P := fun _ => True) ?_ ?_ (fun _ _ => trivial)
  · intro n on c hn hc _
    cases n with
    | two =>
        cases hn
        cases hc
    | version =>
        cases hn
        refine ⟨d.version, rfl, ?_⟩
        cases d with
        | rfc =>
            refine within_of_inside ?_ hc
            decide
        | _ => exact hc
    | ipv4Address | h16s2 | h16s3 | h16s4 | h16s5 | h16s6 | h16s7 => cases hn
    | _ => exact ⟨on, hn, hc⟩
  · intro n alternatives hn
    cases n with
    | two | version => cases hn
    | ipv4Address =>
        refine ⟨alternatives, ?_, List.Subset.refl _⟩
        cases d with
        | hole => exact absurd rfl hd
        | _ => exact hn
    | h16s2 | h16s3 | h16s4 | h16s5 | h16s6 | h16s7 =>
        cases hn
        exact ⟨_, rfl, append_fewer_subset d _ _⟩
    | _ => exact ⟨alternatives, hn, List.Subset.refl _⟩

/-- The same parts in another dialect: only the host depends on it. -/
def Parts.change {d d' : Dialect} (p : Parts d) (hhost : Derives (rule d') [.host] p.host) :
    Parts d' where
  scheme := p.scheme
  userinfo := p.userinfo
  host := p.host
  port := p.port
  path := p.path
  query := p.query
  fragment := p.fragment
  scheme_derives := derives_scheme.mpr (derives_scheme.mp p.scheme_derives)
  userinfo_derives := fun w hw => derives_of_neutral (T := userSymbols)
    (by cases d <;> decide) (by decide) (p.userinfo_derives w hw) (by decide)
  host_derives := hhost
  port_derives := fun w hw => derives_port.mpr (derives_port.mp (p.port_derives w hw))
  path_derives := derives_of_neutral (T := pathSymbols) (by cases d <;> decide) (by decide)
    p.path_derives (by decide)
  query_derives := fun w hw => derives_of_neutral (T := querySymbols)
    (by cases d <;> decide) (by decide) (p.query_derives w hw) (by decide)
  fragment_derives := fun w hw => derives_of_neutral (T := querySymbols)
    (by cases d <;> decide) (by decide) (p.fragment_derives w hw) (by decide)

theorem Parts.change_text {d d' : Dialect} (p : Parts d)
    (hhost : Derives (rule d') [.host] p.host) : (p.change hhost).text = p.text := rfl

/-- The symbols of a host. -/
def hostSymbols : List Symbol :=
  [.host, .ipLiteral, .regName, .regByte, .pctEncoded, .lit 37, .lit 91, .lit 93] ++
    literalSymbols

/-- No control byte occurs in a host of the RFC. -/
theorem ne_two_of_derives {w : List UInt8} (h : Derives (rule .rfc) [.host] w) :
    ∀ c ∈ w, c ≠ 2 := by
  intro c hc heq
  have hclosed : closed (rule .rfc) hostSymbols [(33, 126)] = true := by decide
  have hin := h.within_of_closed hclosed (by decide) c hc
  rw [heq] at hin
  exact absurd hin (by decide)

/-! ## Users that look like ports -/

/-- A digit stands behind the first `:`. -/
def digitAfterColon (w : List UInt8) : Bool :=
  match w.dropWhile (· ≠ 58) with
  | _ :: e :: _ => (digit 10 e).isSome
  | _ => false

theorem savedUserinfo_eq_iff (w : List UInt8) :
    savedUserinfo w = w ↔ digitAfterColon w = false := by
  have hlen : (w.dropWhile (· ≠ 58)).length ≤ w.length :=
    (List.dropWhile_sublist _).length_le
  unfold savedUserinfo digitAfterColon
  generalize w.dropWhile (· ≠ 58) = v at *
  match v, hlen with
  | [], _ => simp
  | [_], _ => simp
  | c :: e :: b, hlen =>
      cases hdigit : (digit 10 e).isSome with
      | false => simp [hdigit]
      | true =>
          simp only [hdigit, if_true, Bool.true_eq_false, iff_false]
          intro heq
          rw [← heq] at hlen
          simp at hlen

/-! ## The fields -/

/-- The `Uri` with the substrings as its fields and the value of the port. -/
def Parts.exact {d : Dialect} (p : Parts d) : Uri where
  scheme := p.scheme
  userinfo := p.userinfo.getD []
  host := p.host
  path := p.path
  query := p.query.getD []
  fragment := p.fragment.getD []
  port := (p.port.map fun ds => (digits 10 ds 0 : ℤ)).getD 0

/-- A port that is there has digits, and its value is a port number. -/
def Parts.PortInRange {d : Dialect} (p : Parts d) : Prop :=
  ∀ ds ∈ p.port, ds ≠ [] ∧ digits 10 ds 0 ≤ 65535

theorem Parts.portValue_of_range {d : Dialect} (p : Parts d) (hport : p.PortInRange) :
    portValue [] p.port = (p.port.map fun ds => (digits 10 ds 0 : ℤ)).getD 0 := by
  have hderives := p.port_derives
  cases hp : p.port with
  | none => rfl
  | some ds =>
      obtain ⟨hne, hle⟩ := hport ds hp
      obtain ⟨e, ds, rfl⟩ := List.exists_cons_of_ne_nil hne
      rw [portValue, atoi_digits hne (derives_port.mp (hderives _ hp)) (by simp),
        min_eq_left (by unfold longMax; omega), toInt32_of_le (by omega) (by omega)]
      rfl

theorem Parts.port_ne_empty {d : Dialect} {p : Parts d} (hport : p.PortInRange) :
    p.port ≠ some [] :=
  fun h => (hport [] h).1 rfl

/-- Nothing but the end of a path follows the parts up to it. -/
theorem Parts.pathEnd_rest {d : Dialect} (p : Parts d) :
    PathEnd (optText 63 p.query ++ optText 35 p.fragment) := by
  cases p.query with
  | some w => exact Or.inr (Or.inr rfl)
  | none =>
      cases p.fragment with
      | some w => exact Or.inr (Or.inl rfl)
      | none => exact Or.inl rfl

/-- What is returned was accepted. -/
theorem run_of_create {s : List UInt8} {u : Uri} (h : create s = .ok (some u)) :
    ∃ q, uriTable.run 451 s = some q ∧ final q = true := by
  rw [create_eq_finish, finish] at h
  cases hgo : go s 0 451 ⟨none, new⟩ with
  | error e => simp [hgo, bind, Except.bind] at h
  | ok y =>
      obtain ⟨p, q, x⟩ := y
      simp only [hgo, bind, Except.bind] at h
      cases hacts : runActs (act s) p (eofActs q) x with
      | error e => simp [hacts] at h
      | ok x' =>
          have hfinal : final q = true := by
            simp only [hacts, pure, Except.pure, Except.ok.injEq] at h
            split_ifs at h with hq
            exact hq
          rcases exec_ok_at (I := fun _ _ _ => True) (fun _ _ _ => trivial) _ trivial hgo with
            rfl | ⟨hrun, -, -⟩
          · cases hfinal
          · exact ⟨q, hrun, hfinal⟩

/-- What `Create` returns is made of the parts. -/
theorem Parts.uri_of_create (p : Parts .source) {u : Uri}
    (hcreate : create p.text = .ok (some u)) : p.port ≠ some [] ∧ u = p.uri := by
  have hport : p.port ≠ some [] := by
    intro hport
    have hthrows : create p.text = .error .nullString :=
      create_of_emptyPort ⟨p, _, hport, List.append_assoc _ _ _, p.pathEnd_rest⟩
    rw [hcreate] at hthrows
    cases hthrows
  have hu := p.create_text hport
  rw [hcreate] at hu
  exact ⟨hport, Option.some.inj (Except.ok.inj hu)⟩

theorem parts_of_create {v rest : List UInt8} {u : Uri}
    (hv : Derives (rule .source) [.scheme] v)
    (hcreate : create (v ++ 58 :: 47 :: 47 :: rest) = .ok (some u)) :
    ∃ p : Parts .source, p.text = v ++ 58 :: 47 :: 47 :: rest ∧ p.scheme = v ∧ u = p.uri := by
  obtain ⟨q, hrun, hfinal⟩ := run_of_create hcreate
  obtain ⟨p, htext, hscheme⟩ := exists_parts hv hrun hfinal
  exact ⟨p, htext, hscheme, (p.uri_of_create (htext.symm ▸ hcreate)).2⟩

/-- The first `e` of a string splits it in one way. -/
theorem split_unique {e : UInt8} {w w' A B : List UInt8} (hw : ∀ c ∈ w, c ≠ e)
    (hw' : ∀ c ∈ w', c ≠ e) (h : w ++ e :: A = w' ++ e :: B) : w = w' ∧ A = B := by
  induction w generalizing w' with
  | nil =>
      cases w' with
      | nil => exact ⟨rfl, (List.cons.inj h).2⟩
      | cons c w' => exact absurd (List.cons.inj h).1.symm (hw' c List.mem_cons_self)
  | cons c w ih =>
      cases w' with
      | nil => exact absurd (List.cons.inj h).1 (hw c List.mem_cons_self)
      | cons c' w' =>
          obtain ⟨rfl, htail⟩ := List.cons.inj h
          obtain ⟨rfl, rfl⟩ := ih (fun x hx => hw x (List.mem_cons_of_mem _ hx))
            (fun x hx => hw' x (List.mem_cons_of_mem _ hx)) htail
          exact ⟨rfl, rfl⟩

theorem ne_at_of_user {d : Dialect} {w : List UInt8} (h : Derives (rule d) [.userinfo] w) :
    ∀ c ∈ w, c ≠ 64 := by
  intro c hc heq
  have hin := userBytes_of_derives h c hc
  rw [heq] at hin
  exact absurd hin (by decide)

/-- Two parts of one string with the same scheme have the same user. -/
theorem Parts.userinfo_eq {d d' : Dialect} {p : Parts d} {p' : Parts d'}
    (htext : p.text = p'.text) (hscheme : p.scheme = p'.scheme) {w w' : List UInt8}
    (hw : p.userinfo = some w) (hw' : p'.userinfo = some w') : w = w' := by
  simp only [text, front, authority, hscheme, hw, hw', userText, List.append_assoc,
    List.append_cancel_left_eq, List.cons_append, List.cons.injEq, true_and] at htext
  exact (split_unique (ne_at_of_user (p.userinfo_derives w hw))
    (ne_at_of_user (p'.userinfo_derives w' hw')) htext).1

/-- **The fields.** For parts of the RFC's grammar `Create` succeeds with exactly
these parts if and only if no digit stands behind the first `:` of the user, and
the host is derived without the octets from 200 to 249, without a capital `V`, and
with no groups or as many as there can be in front of a `::` (a name or a dotted quad
that is no IP literal always is). -/
theorem create_exact_iff (p : Parts .rfc) (hport : p.PortInRange) :
    create p.text = .ok (some p.exact) ↔
      (∀ w ∈ p.userinfo, digitAfterColon w = false) ∧
        Derives (rule .shared) [.host] p.host := by
  constructor
  · intro hcreate
    have hscheme : Derives (rule .source) [.scheme] p.scheme :=
      derives_scheme.mpr (derives_scheme.mp p.scheme_derives)
    have htext : p.text = p.scheme ++ 58 :: 47 :: 47 :: (p.authority ++ p.path ++
        optText 63 p.query ++ optText 35 p.fragment) := by
      simp [Parts.text, Parts.front]
    rw [htext] at hcreate
    obtain ⟨p', htext', hscheme', hu⟩ := parts_of_create hscheme hcreate
    rw [← htext] at htext'
    have hhost : p.host = p'.host := congrArg Uri.host hu
    have huser : p.userinfo.getD [] = (p'.userinfo.map savedUserinfo).getD [] :=
      congrArg Uri.userinfo hu
    constructor
    · intro w hw
      cases hp' : p'.userinfo with
      | none =>
          obtain rfl : w = [] := by
            rw [hp', hw] at huser
            exact huser
          rfl
      | some w' =>
          obtain rfl := Parts.userinfo_eq htext' hscheme' hp' hw
          rw [hp', hw] at huser
          exact (savedUserinfo_eq_iff w').mp huser.symm
    · rw [hhost]
      refine derives_shared p'.host_derives ?_
      rw [← hhost]
      exact ne_two_of_derives p.host_derives
  · rintro ⟨huser, hhost⟩
    have hcreate := (p.change (derives_of_shared (d := .source) (by decide) hhost)).create_text
      (Parts.port_ne_empty hport)
    rw [Parts.change_text] at hcreate
    have hsaved : (p.userinfo.map savedUserinfo).getD [] = p.userinfo.getD [] := by
      cases hw : p.userinfo with
      | none => rfl
      | some w => exact (savedUserinfo_eq_iff w).mpr (huser w hw)
    rw [hcreate, Parts.exact, ← hsaved, ← p.portValue_of_range hport]
    rfl

/-- `http://a:1@h:80/x?y#z`. -/
def passwordParts : Parts .rfc where
  scheme := bytes "http"
  userinfo := some (bytes "a:1")
  host := bytes "h"
  port := some (bytes "80")
  path := bytes "/x"
  query := some (bytes "y")
  fragment := some (bytes "z")
  scheme_derives := derives_of_recognize 400 (by decide)
  userinfo_derives := by
    rintro w ⟨⟩
    exact derives_of_recognize 400 (by decide)
  host_derives := derives_of_recognize 400 (by decide)
  port_derives := by
    rintro w ⟨⟩
    exact derives_of_recognize 400 (by decide)
  path_derives := derives_of_recognize 400 (by decide)
  query_derives := by
    rintro w ⟨⟩
    exact derives_of_recognize 400 (by decide)
  fragment_derives := by
    rintro w ⟨⟩
    exact derives_of_recognize 400 (by decide)

theorem passwordParts_inRange : passwordParts.PortInRange := by
  rintro ds ⟨⟩
  decide

theorem create_exact_iff_password :
    create passwordParts.text = .ok (some passwordParts.exact) ↔
      (∀ w ∈ passwordParts.userinfo, digitAfterColon w = false) ∧
        Derives (rule .shared) [.host] passwordParts.host :=
  create_exact_iff passwordParts passwordParts_inRange

/-- `http://[fe80::1]/`. -/
def literalParts : Parts .rfc where
  scheme := bytes "http"
  userinfo := none
  host := bytes "[fe80::1]"
  port := none
  path := bytes "/"
  query := none
  fragment := none
  scheme_derives := derives_of_recognize 400 (by decide)
  userinfo_derives := fun _ hw => absurd hw (Option.not_mem_none _)
  host_derives := derives_of_recognize 400 (by decide)
  port_derives := fun _ hw => absurd hw (Option.not_mem_none _)
  path_derives := derives_of_recognize 400 (by decide)
  query_derives := fun _ hw => absurd hw (Option.not_mem_none _)
  fragment_derives := fun _ hw => absurd hw (Option.not_mem_none _)

/-- A host of the RFC is refused, and a user loses everything in front of the digit. -/
theorem create_literal_password :
    literalParts.PortInRange ∧ literalParts.text = bytes "http://[fe80::1]/" ∧
      create literalParts.text = .ok none ∧
      passwordParts.PortInRange ∧ passwordParts.text = bytes "http://a:1@h:80/x?y#z" ∧
      passwordParts.exact.userinfo = bytes "a:1" ∧
      create passwordParts.text =
        .ok (some { passwordParts.exact with userinfo := bytes "1" }) :=
  ⟨fun _ hw => absurd hw (Option.not_mem_none _), by decide, by decide,
    passwordParts_inRange, by decide, rfl, by decide⟩

end Uri

end Skt
