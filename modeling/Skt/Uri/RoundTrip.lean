import Skt.Uri.Correct

/-!
# Printing and parsing again

`toString` drops default ports and empty parts and prints `/` for an empty path.
What it prints has parts again, so `create_text` says what `Create` makes of it.
-/

namespace Skt

set_option maxRecDepth 4000

namespace Uri

open Lib Lib.CString Lib.Ragel Lib.Grammar UriGrammar

/-! ## Two digits behind colons -/

/-- A digit stands behind the first `:`, and another one behind the next `:`. -/
def TwoDigits (w : List UInt8) : Prop :=
  ∃ a e b e' c, w = a ++ 58 :: e :: (b ++ 58 :: e' :: c) ∧ (∀ x ∈ a, x ≠ 58) ∧
    (∀ x ∈ b, x ≠ 58) ∧ (digit 10 e).isSome = true ∧ (digit 10 e').isSome = true

theorem digitAfterColon_iff {w : List UInt8} : digitAfterColon w = true ↔
    ∃ a e b, w = a ++ 58 :: e :: b ∧ (∀ x ∈ a, x ≠ 58) ∧ (digit 10 e).isSome = true := by
  constructor
  · intro h
    unfold digitAfterColon at h
    split at h
    · rename_i c e b heq
      have hw := List.takeWhile_append_dropWhile (p := (· ≠ 58)) (l := w)
      rw [heq] at hw
      have hc : c = 58 := by
        have hnot := List.head?_dropWhile_not (· ≠ (58 : UInt8)) w
        rw [heq] at hnot
        simpa using hnot
      subst hc
      refine ⟨_, e, b, hw.symm, fun x hx => ?_, h⟩
      simpa using List.mem_takeWhile_imp hx
    · cases h
  · rintro ⟨a, e, b, rfl, ha, he⟩
    unfold digitAfterColon
    rw [List.dropWhile_append_of_pos (by simpa using ha), List.dropWhile_cons_of_neg (by simp)]
    exact he

theorem ne_colon_of_digit {e : UInt8} (he : (digit 10 e).isSome = true) : e ≠ 58 := by
  rintro rfl
  exact absurd he (by decide)

theorem digitAfterColon_saved_iff (w : List UInt8) :
    digitAfterColon (savedUserinfo w) = true ↔ TwoDigits w := by
  by_cases h : digitAfterColon w = true
  · obtain ⟨a, e, b, rfl, ha, he⟩ := digitAfterColon_iff.mp h
    rw [savedUserinfo_append ha]
    simp only [he, if_true]
    rw [digitAfterColon_iff]
    constructor
    · rintro ⟨a', e', c, heq, ha', he'⟩
      cases a' with
      | nil => exact absurd (List.cons.inj heq).1 (ne_colon_of_digit he)
      | cons x a' =>
          obtain ⟨rfl, rfl⟩ := List.cons.inj heq
          exact ⟨a, e, a', e', c, rfl, ha, fun y hy => ha' y (List.mem_cons_of_mem _ hy), he,
            he'⟩
    · rintro ⟨a₂, e₂, b₂, e', c, heq, ha₂, hb₂, he₂, he'⟩
      obtain ⟨rfl, htail⟩ := split_unique ha ha₂ heq
      obtain ⟨rfl, rfl⟩ := List.cons.inj htail
      refine ⟨e :: b₂, e', c, rfl, fun x hx => ?_, he'⟩
      rcases List.mem_cons.mp hx with rfl | hx
      · exact ne_colon_of_digit he
      · exact hb₂ x hx
  · rw [(savedUserinfo_eq_iff w).mpr (Bool.not_eq_true _ ▸ h)]
    refine iff_of_false h ?_
    rintro ⟨a, e, b, e', c, rfl, ha, -, he, -⟩
    exact h (digitAfterColon_iff.mpr ⟨a, e, _, rfl, ha, he⟩)

/-! ## What is left of a user is a user -/

/-- A piece of a user is a `:` or has none. -/
theorem colon_of_userByte {d : Dialect} {v : List UInt8} (h : Derives (rule d) [.userByte] v) :
    v = [58] ∨ ∀ x ∈ v, x ≠ 58 := by
  have hclosed : closed (rule d) [.unreserved, .pctEncoded, .subDelims, .lit 37, .xdigit]
      nameBytes = true := by
    cases d <;> decide
  have hno : ∀ {n : Symbol}, n ∈ [Symbol.unreserved, .pctEncoded, .subDelims] →
      Derives (rule d) [n] v → ∀ x ∈ v, x ≠ 58 := by
    intro n hn h x hx heq
    have hin := h.within_of_closed hclosed (by
      simp only [List.mem_cons, List.not_mem_nil, or_false] at hn ⊢
      rintro m rfl
      tauto) x hx
    rw [heq] at hin
    exact absurd hin (by decide)
  obtain ⟨a, ha, h⟩ := (derives_oneOf (G := rule d) (n := .userByte) rfl).mp h
  simp only [List.mem_cons, List.not_mem_nil, or_false] at ha
  rcases ha with rfl | rfl | rfl | rfl
  · exact Or.inr (hno (by decide) h)
  · exact Or.inr (hno (by decide) h)
  · exact Or.inr (hno (by decide) h)
  · exact Or.inl ((derives_lit 58).mp h)

theorem flatten_after_colon {ws : List (List UInt8)}
    (hws : ∀ v ∈ ws, v = [58] ∨ ∀ x ∈ v, x ≠ 58) {a b : List UInt8} (ha : ∀ x ∈ a, x ≠ 58)
    (h : ws.flatten = a ++ 58 :: b) :
    ∃ ws' : List (List UInt8), b = ws'.flatten ∧ ∀ v ∈ ws', v ∈ ws := by
  induction ws generalizing a with
  | nil => simp at h
  | cons v ws ih =>
      rw [List.flatten_cons] at h
      rcases hws v List.mem_cons_self with rfl | hv
      · obtain ⟨-, rfl⟩ := split_unique (w := []) (by simp) ha h
        exact ⟨ws, rfl, fun u hu => List.mem_cons_of_mem _ hu⟩
      · -- the piece lies in front of the `:`
        rcases List.append_eq_append_iff.mp h with ⟨a', rfl, hflat⟩ | ⟨c, rfl, hc⟩
        · obtain ⟨ws', rfl, hmem⟩ := ih (fun u hu => hws u (List.mem_cons_of_mem _ hu))
            (fun x hx => ha x (List.mem_append_right _ hx)) hflat
          exact ⟨ws', rfl, fun u hu => List.mem_cons_of_mem _ (hmem u hu)⟩
        · cases c with
          | nil =>
              obtain ⟨ws', rfl, hmem⟩ := ih (fun u hu => hws u (List.mem_cons_of_mem _ hu))
                (a := []) (by simp) (by simpa using hc.symm)
              exact ⟨ws', rfl, fun u hu => List.mem_cons_of_mem _ (hmem u hu)⟩
          | cons x c =>
              have hx : 58 = x := (List.cons.inj hc).1
              exact absurd hx.symm (hv x (List.mem_append_right _ List.mem_cons_self))

theorem derives_user_suffix {d : Dialect} {a b : List UInt8} (ha : ∀ x ∈ a, x ≠ 58)
    (h : Derives (rule d) [.userinfo] (a ++ 58 :: b)) : Derives (rule d) [.userinfo] b := by
  obtain ⟨ws, hflat, hws⟩ :=
    (derives_repeated (G := rule d) (n := .userinfo) (m := .userByte) rfl).mp h
  obtain ⟨ws', rfl, hmem⟩ := flatten_after_colon (fun v hv => colon_of_userByte (hws v hv)) ha
    hflat.symm
  exact (derives_repeated (G := rule d) (n := .userinfo) (m := .userByte) rfl).mpr
    ⟨ws', rfl, fun v hv => hws v (hmem v hv)⟩

theorem savedUserinfo_derives {d : Dialect} {w : List UInt8}
    (h : Derives (rule d) [.userinfo] w) : Derives (rule d) [.userinfo] (savedUserinfo w) := by
  by_cases hdigit : digitAfterColon w = true
  · obtain ⟨a, e, b, rfl, ha, he⟩ := digitAfterColon_iff.mp hdigit
    rw [savedUserinfo_append ha]
    simp only [he, if_true]
    exact derives_user_suffix ha h
  · rwa [(savedUserinfo_eq_iff w).mpr (Bool.not_eq_true _ ▸ hdigit)]

/-! ## What is printed -/

/-- An empty part is not printed. -/
def present (w : List UInt8) : Option (List UInt8) := if w = [] then none else some w

@[simp] theorem getD_present (w : List UInt8) : (present w).getD [] = w := by
  unfold present
  split_ifs with h
  · exact h.symm
  · rfl

theorem mem_present {w v : List UInt8} (h : v ∈ present w) : v = w := by
  unfold present at h
  split_ifs at h
  · cases h
  · exact (Option.some.inj h).symm

theorem derives_slash {d : Dialect} : Derives (rule d) [.pathAbempty] (bytes "/") := by
  cases d <;> exact derives_of_recognize 400 (by decide)

variable (p : Parts .source)

theorem Parts.getD_derives {o : Option (List UInt8)} {n : Symbol}
    (ho : ∀ w ∈ o, Derives (rule .source) [n] w) :
    ∀ w ∈ present (o.getD []), Derives (rule .source) [n] w := by
  intro w hw
  obtain rfl := mem_present hw
  cases o with
  | none => exact absurd hw (by simp [present])
  | some v => exact ho v rfl

/-- The parts of what is printed. -/
def Parts.printed : Parts .source where
  scheme := p.scheme
  userinfo := present ((p.userinfo.map savedUserinfo).getD [])
  host := p.host
  port := if p.uri.isDefaultPort then none else some (decimal p.uri.port.natAbs)
  path := p.uri.getPath
  query := present (p.query.getD [])
  fragment := present (p.fragment.getD [])
  scheme_derives := p.scheme_derives
  userinfo_derives := by
    refine getD_derives fun w hw => ?_
    obtain ⟨v, hv, rfl⟩ := Option.mem_map.mp hw
    exact savedUserinfo_derives (p.userinfo_derives v hv)
  host_derives := p.host_derives
  port_derives := by
    intro w hw
    split_ifs at hw
    · cases hw
    · cases hw
      exact derives_port.mpr fun c hc => mem_decimal hc
  path_derives := by
    unfold getPath
    split_ifs
    · exact derives_slash
    · exact p.path_derives
  query_derives := getD_derives p.query_derives
  fragment_derives := getD_derives p.fragment_derives

theorem userText_present (w : List UInt8) :
    userText (present w) = w ++ if w = [] then [] else bytes "@" := by
  unfold present
  split_ifs with h
  · rw [h]
    rfl
  · rfl

theorem optText_present (c : UInt8) (w : List UInt8) :
    optText c (present w) = (if w = [] then [] else [c]) ++ w := by
  unfold present
  split_ifs with h
  · rw [h]
    rfl
  · rfl

theorem Parts.printed_text (hport : 0 ≤ p.uri.port) : p.printed.text = p.uri.toString := by
  have hcolon : optText 58 p.printed.port =
      if p.uri.isDefaultPort then [] else bytes ":" ++ toText p.uri.port := by
    simp only [printed]
    split_ifs
    · rfl
    · rw [toText, if_neg (by omega)]
      rfl
  simp only [text, front, authority, hcolon]
  simp only [printed, userText_present, optText_present, toString, List.append_assoc,
    List.cons_append]
  rfl

/-- **What is parsed again.** -/
theorem Parts.create_toString (hport : 0 ≤ p.uri.port) :
    create p.uri.toString = .ok (some p.printed.uri) := by
  rw [← p.printed_text hport]
  refine p.printed.create_text fun h => ?_
  simp only [printed] at h
  split_ifs at h
  exact decimal_ne_nil _ (Option.some.inj h)

/-! ## Agreement -/

/-- The getters return the same. -/
structure SameGetters (u v : Uri) : Prop where
  scheme : u.scheme = v.scheme
  userinfo : u.userinfo = v.userinfo
  host : u.host = v.host
  port : u.getPort = v.getPort
  path : u.getPath = v.getPath
  query : u.query = v.query
  fragment : u.fragment = v.fragment

/-- `Create` of what was printed agrees, and prints the same again. -/
def Reparses (u : Uri) : Prop :=
  ∃ v, create u.toString = .ok (some v) ∧ SameGetters u v ∧ v.toString = u.toString

theorem Parts.printed_port (hport : 0 ≤ p.uri.port) (hle : p.uri.port ≤ 65535) :
    p.printed.uri.port = if p.uri.isDefaultPort then 0 else p.uri.port := by
  show portValue [] p.printed.port = _
  simp only [printed]
  split_ifs with h
  · rfl
  · obtain ⟨e, ds, hds⟩ := List.exists_cons_of_ne_nil (decimal_ne_nil p.uri.port.natAbs)
    have hvalue : atoi (decimal p.uri.port.natAbs ++ []) = (p.uri.port.natAbs : ℕ) :=
      atoi_decimal (by omega) (by simp)
    rw [hds] at hvalue ⊢
    rw [portValue, hvalue]
    omega

theorem getPath_ne_nil (u : Uri) : u.getPath ≠ [] := by
  unfold getPath
  split_ifs with h
  · decide
  · exact h

theorem getPath_of_ne_nil {u : Uri} (h : u.path ≠ []) : u.getPath = u.path := if_neg h

/-- A default port is read back as one. -/
theorem getPort_of_default {u v : Uri} (hscheme : v.scheme = u.scheme)
    (hport : v.port = if u.isDefaultPort then 0 else u.port) :
    v.getPort = u.getPort ∧ v.isDefaultPort = u.isDefaultPort := by
  unfold getPort isDefaultPort at *
  rw [hscheme]
  split_ifs at hport ⊢ <;> simp_all

theorem Parts.printed_userinfo :
    p.printed.uri.userinfo = savedUserinfo p.uri.userinfo := by
  show ((present p.uri.userinfo).map savedUserinfo).getD [] = _
  unfold present
  split_ifs with h
  · rw [h]
    rfl
  · rfl

/-- What is parsed again agrees up to the user. -/
theorem Parts.reparses_iff (hport : 0 ≤ p.uri.port) (hle : p.uri.port ≤ 65535) :
    Reparses p.uri ↔ savedUserinfo p.uri.userinfo = p.uri.userinfo := by
  have hpath : p.printed.uri.getPath = p.uri.getPath :=
    getPath_of_ne_nil (getPath_ne_nil p.uri)
  have hquery : p.printed.uri.query = p.uri.query := getD_present _
  have hfragment : p.printed.uri.fragment = p.uri.fragment := getD_present _
  obtain ⟨hgetPort, hdefault⟩ := getPort_of_default (u := p.uri) (v := p.printed.uri) rfl
    (p.printed_port hport hle)
  constructor
  · rintro ⟨v, hv, hsame, -⟩
    rw [p.create_toString hport] at hv
    obtain rfl := Option.some.inj (Except.ok.inj hv)
    rw [← p.printed_userinfo]
    exact hsame.userinfo.symm
  · intro huser
    have huser' : p.printed.uri.userinfo = p.uri.userinfo := p.printed_userinfo.trans huser
    refine ⟨p.printed.uri, p.create_toString hport, ?_, ?_⟩
    · exact ⟨rfl, huser'.symm, rfl, hgetPort.symm, hpath.symm, hquery.symm, hfragment.symm⟩
    · have htext : (if p.printed.uri.isDefaultPort then [] else
          bytes ":" ++ toText p.printed.uri.port) =
          if p.uri.isDefaultPort then [] else bytes ":" ++ toText p.uri.port := by
        rw [hdefault, p.printed_port hport hle]
        split_ifs <;> rfl
      unfold toString
      rw [htext, huser', hpath, hquery, hfragment]
      rfl

/-! ## Strings -/

/-- A scheme and `"://"` in front. -/
def AuthorityForm (s : List UInt8) : Prop :=
  ∃ v rest, Derives (rule .source) [.scheme] v ∧ s = v ++ 58 :: 47 :: 47 :: rest

theorem Parts.port_range {p : Parts .source} (hne : p.port ≠ some [])
    (hport : ∀ ds ∈ p.port, digits 10 ds 0 ≤ 65535) :
    0 ≤ p.uri.port ∧ p.uri.port ≤ 65535 := by
  have hrange : p.PortInRange := fun ds hds => ⟨fun h => hne (h ▸ hds), hport ds hds⟩
  show 0 ≤ portValue [] p.port ∧ portValue [] p.port ≤ 65535
  rw [p.portValue_of_range hrange]
  cases hp : p.port with
  | none => simp
  | some ds =>
      have := hport ds hp
      simp only [Option.map_some, Option.getD_some]
      omega

/-- **Parsing what was printed.** A string with an authority that `Create` accepts
has parts. When the port is a port number, what is printed is parsed to the same
again if and only if the user has no two digits behind colons. -/
theorem create_toString_iff {s : List UInt8} {u : Uri} (hform : AuthorityForm s)
    (hcreate : create s = .ok (some u)) :
    (∃ p : Parts .source, p.text = s) ∧
      ∀ p : Parts .source, p.text = s → (∀ ds ∈ p.port, digits 10 ds 0 ≤ 65535) →
        (Reparses u ↔ ∀ w ∈ p.userinfo, ¬TwoDigits w) := by
  constructor
  · obtain ⟨v, rest, hv, rfl⟩ := hform
    obtain ⟨p, htext, -⟩ := parts_of_create hv hcreate
    exact ⟨p, htext⟩
  · rintro p rfl hport
    obtain ⟨hne, rfl⟩ := p.uri_of_create hcreate
    obtain ⟨hlo, hhi⟩ := Parts.port_range hne hport
    rw [p.reparses_iff hlo hhi, savedUserinfo_eq_iff]
    show digitAfterColon ((p.userinfo.map savedUserinfo).getD []) = false ↔ _
    cases hw : p.userinfo with
    | none => simp [digitAfterColon]
    | some w =>
        rw [Option.map_some, Option.getD_some, ← Bool.not_eq_true, digitAfterColon_saved_iff]
        simp

theorem authorityForm_http (rest : List UInt8) : AuthorityForm (bytes "http://" ++ rest) :=
  ⟨bytes "http", rest, derives_of_recognize 400 (by decide), rfl⟩

theorem create_toString_iff_sample :
    create (bytes "http://" ++ bytes "a@h:80") =
        .ok (some ⟨bytes "http", bytes "a", bytes "h", [], [], [], 80⟩) ∧
      ((∃ p : Parts .source, p.text = bytes "http://" ++ bytes "a@h:80") ∧
        ∀ p : Parts .source, p.text = bytes "http://" ++ bytes "a@h:80" →
          (∀ ds ∈ p.port, digits 10 ds 0 ≤ 65535) →
          (Reparses ⟨bytes "http", bytes "a", bytes "h", [], [], [], 80⟩ ↔
            ∀ w ∈ p.userinfo, ¬TwoDigits w)) :=
  have hcreate : create (bytes "http://" ++ bytes "a@h:80") =
      .ok (some ⟨bytes "http", bytes "a", bytes "h", [], [], [], 80⟩) := by
    decide
  ⟨hcreate, create_toString_iff (authorityForm_http (bytes "a@h:80")) hcreate⟩

/-- The user of `http://a:1:2@h` is read as `1:2`, printed, and then read as `2`. -/
theorem create_toString_shrinks :
    create (bytes "http://a:1:2@h") =
        .ok (some ⟨bytes "http", bytes "1:2", bytes "h", [], [], [], 0⟩) ∧
      create (toString ⟨bytes "http", bytes "1:2", bytes "h", [], [], [], 0⟩) =
        .ok (some ⟨bytes "http", bytes "2", bytes "h", bytes "/", [], [], 0⟩) := by
  decide

end Uri

end Skt
