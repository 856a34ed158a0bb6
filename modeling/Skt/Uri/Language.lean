import Skt.Uri.Correct

/-!
# The language of the automaton and the RFC

The automaton accepts what the rules of `uri.rl` derive. These are the rules of
RFC 3986 with non-ASCII bytes in `pchar`, but for the byte in front of the octets
from 200 to 249, the letter of `IPvFuture` and the number of groups in front of the
`::` of an IPv6 address.
-/

namespace Skt

set_option maxRecDepth 4000

namespace Uri

open Lib Lib.Ragel Lib.Grammar UriGrammar

/-! ## Dotted quads -/

/-- The decimal text of an octet, with another byte for the `2` in front of the
octets from 200 to 249. -/
def octetText (two : UInt8) (n : ℕ) : List UInt8 :=
  if n < 10 then [UInt8.ofNat (48 + n)]
  else if n < 100 then [UInt8.ofNat (48 + n / 10), UInt8.ofNat (48 + n % 10)]
  else
    [if 200 ≤ n ∧ n < 250 then two else UInt8.ofNat (48 + n / 100),
      UInt8.ofNat (48 + n / 10 % 10), UInt8.ofNat (48 + n % 10)]

/-- Four octets. -/
def quadText (two : UInt8) (o : ℕ × ℕ × ℕ × ℕ) : List UInt8 :=
  octetText two o.1 ++ 46 :: (octetText two o.2.1 ++ 46 :: (octetText two o.2.2.1 ++
    46 :: octetText two o.2.2.2))

/-- The octets are octets. -/
def IsQuad (o : ℕ × ℕ × ℕ × ℕ) : Prop :=
  o.1 < 256 ∧ o.2.1 < 256 ∧ o.2.2.1 < 256 ∧ o.2.2.2 < 256

/-- One of the octets lies between 200 and 249. -/
def HasHighOctet (o : ℕ × ℕ × ℕ × ℕ) : Prop :=
  ∃ n ∈ [o.1, o.2.1, o.2.2.1, o.2.2.2], 200 ≤ n ∧ n < 250

theorem decOctet_of_octetText : ∀ n < 256,
    recognize (rule .source) 50 [[.decOctet]] (octetText 2 n) = some true := by
  decide

theorem octetText_two_mem : ∀ n < 256, (2 ∈ octetText 2 n ↔ 200 ≤ n ∧ n < 250) := by
  decide

theorem exists_ofNat {lo hi : ℕ} {c : UInt8} (h : within [(lo, hi)] c.toNat = true) :
    ∃ a, lo + a ≤ hi ∧ c = UInt8.ofNat (lo + a) := by
  simp only [within_cons, within_nil, Bool.false_eq_true, or_false] at h
  refine ⟨c.toNat - lo, by omega, ?_⟩
  rw [Nat.add_sub_cancel' h.1]
  simp

theorem derives_range {n : Symbol} {lo hi : ℕ} {k : List Symbol} {w : List UInt8}
    (hn : rule .source n = .byte [(lo, hi)]) (h : Derives (rule .source) (n :: k) w) :
    ∃ a v, lo + a ≤ hi ∧ w = UInt8.ofNat (lo + a) :: v ∧ Derives (rule .source) k v := by
  obtain ⟨u, v, rfl, hu, hv⟩ := derives_cons.mp h
  obtain ⟨c, rfl, hc⟩ := (derives_byte hn).mp hu
  obtain ⟨a, ha, rfl⟩ := exists_ofNat hc
  exact ⟨a, v, ha, rfl, hv⟩

theorem octetText_of_derives {x : List UInt8} (h : Derives (rule .source) [.decOctet] x) :
    ∃ n < 256, x = octetText 2 n := by
  obtain ⟨alt, halt, h₀⟩ := (derives_oneOf (G := rule .source) (n := .decOctet) rfl).mp h
  simp only [List.mem_cons, List.not_mem_nil, or_false] at halt
  rcases halt with rfl | rfl | rfl | rfl | rfl
  · obtain ⟨a, v, ha, rfl, h₁⟩ := derives_range rfl h₀
    obtain rfl := derives_nil.mp h₁
    have hall : ∀ a < 10, [UInt8.ofNat (48 + a)] = octetText 2 a := by decide
    exact ⟨a, by omega, hall a (by omega)⟩
  · obtain ⟨a, v, ha, rfl, h₁⟩ := derives_range rfl h₀
    obtain ⟨b, v, hb, rfl, h₂⟩ := derives_range rfl h₁
    obtain rfl := derives_nil.mp h₂
    have hall : ∀ a < 9, ∀ b < 10, [UInt8.ofNat (49 + a), UInt8.ofNat (48 + b)] =
        octetText 2 (10 * (a + 1) + b) := by
      decide
    exact ⟨10 * (a + 1) + b, by omega, hall a (by omega) b (by omega)⟩
  · obtain ⟨e, v, he, rfl, h₁⟩ := derives_range rfl h₀
    obtain ⟨a, v, ha, rfl, h₂⟩ := derives_range rfl h₁
    obtain ⟨b, v, hb, rfl, h₃⟩ := derives_range rfl h₂
    obtain rfl := derives_nil.mp h₃
    obtain rfl : e = 0 := by omega
    have hall : ∀ a < 10, ∀ b < 10, [UInt8.ofNat (49 + 0), UInt8.ofNat (48 + a),
        UInt8.ofNat (48 + b)] = octetText 2 (100 + 10 * a + b) := by
      decide
    exact ⟨100 + 10 * a + b, by omega, hall a (by omega) b (by omega)⟩
  · obtain ⟨e, v, he, rfl, h₁⟩ := derives_range rfl h₀
    obtain ⟨a, v, ha, rfl, h₂⟩ := derives_range rfl h₁
    obtain ⟨b, v, hb, rfl, h₃⟩ := derives_range rfl h₂
    obtain rfl := derives_nil.mp h₃
    obtain rfl : e = 0 := by omega
    have hall : ∀ a < 5, ∀ b < 10, [UInt8.ofNat (2 + 0), UInt8.ofNat (48 + a),
        UInt8.ofNat (48 + b)] = octetText 2 (200 + 10 * a + b) := by
      decide
    exact ⟨200 + 10 * a + b, by omega, hall a (by omega) b (by omega)⟩
  · obtain ⟨e, v, he, rfl, h₁⟩ := derives_range rfl h₀
    obtain ⟨e', v, he', rfl, h₂⟩ := derives_range rfl h₁
    obtain ⟨b, v, hb, rfl, h₃⟩ := derives_range rfl h₂
    obtain rfl := derives_nil.mp h₃
    obtain rfl : e = 0 := by omega
    obtain rfl : e' = 0 := by omega
    have hall : ∀ b < 6, [UInt8.ofNat (50 + 0), UInt8.ofNat (53 + 0),
        UInt8.ofNat (48 + b)] = octetText 2 (250 + b) := by
      decide
    exact ⟨250 + b, by omega, hall b (by omega)⟩

/-- The dotted quads of `uri.rl`. -/
theorem derives_quad {x : List UInt8} :
    Derives (rule .source) [.ipv4Address] x ↔ ∃ o, IsQuad o ∧ x = quadText 2 o := by
  rw [derives_oneOf (G := rule .source) (n := .ipv4Address) rfl]
  constructor
  · rintro ⟨a, ha, h⟩
    obtain rfl := List.mem_singleton.mp ha
    obtain ⟨x₁, v₁, rfl, h₁, hv₁⟩ := derives_cons.mp h
    obtain ⟨d₁, v₂, rfl, hd₁, hv₂⟩ := derives_cons.mp hv₁
    obtain ⟨x₂, v₃, rfl, h₂, hv₃⟩ := derives_cons.mp hv₂
    obtain ⟨d₂, v₄, rfl, hd₂, hv₄⟩ := derives_cons.mp hv₃
    obtain ⟨x₃, v₅, rfl, h₃, hv₅⟩ := derives_cons.mp hv₄
    obtain ⟨d₃, x₄, rfl, hd₃, h₄⟩ := derives_cons.mp hv₅
    obtain ⟨n₁, hn₁, rfl⟩ := octetText_of_derives h₁
    obtain ⟨n₂, hn₂, rfl⟩ := octetText_of_derives h₂
    obtain ⟨n₃, hn₃, rfl⟩ := octetText_of_derives h₃
    obtain ⟨n₄, hn₄, rfl⟩ := octetText_of_derives h₄
    obtain rfl := (derives_lit 46).mp hd₁
    obtain rfl := (derives_lit 46).mp hd₂
    obtain rfl := (derives_lit 46).mp hd₃
    exact ⟨(n₁, n₂, n₃, n₄), ⟨hn₁, hn₂, hn₃, hn₄⟩, rfl⟩
  · rintro ⟨⟨n₁, n₂, n₃, n₄⟩, ⟨hn₁, hn₂, hn₃, hn₄⟩, rfl⟩
    have hoctet : ∀ n < 256, Derives (rule .source) [.decOctet] (octetText 2 n) :=
      fun n hn => derives_of_recognize 50 (decOctet_of_octetText n hn)
    have hdot : Derives (rule .source) [.lit 46] [46] := (derives_lit 46).mpr rfl
    refine ⟨_, List.mem_singleton_self _, ?_⟩
    exact derives_cons.mpr ⟨_, _, rfl, hoctet n₁ hn₁, derives_cons.mpr ⟨[46], _, rfl, hdot,
      derives_cons.mpr ⟨_, _, rfl, hoctet n₂ hn₂, derives_cons.mpr ⟨[46], _, rfl, hdot,
        derives_cons.mpr ⟨_, _, rfl, hoctet n₃ hn₃, derives_cons.mpr ⟨[46], _, rfl, hdot,
          hoctet n₄ hn₄⟩⟩⟩⟩⟩⟩

theorem two_mem_quadText {o : ℕ × ℕ × ℕ × ℕ} (ho : IsQuad o) :
    2 ∈ quadText 2 o ↔ HasHighOctet o := by
  obtain ⟨n₁, n₂, n₃, n₄⟩ := o
  obtain ⟨h₁, h₂, h₃, h₄⟩ := ho
  have hdot : (2 : UInt8) ≠ 46 := by decide
  simp only [quadText, HasHighOctet, List.mem_append, List.mem_cons, hdot, false_or,
    octetText_two_mem _ h₁, octetText_two_mem _ h₂, octetText_two_mem _ h₃,
    octetText_two_mem _ h₄, List.not_mem_nil, or_false, exists_eq_or_imp, exists_eq_left]

/-! ## A quad in its place -/

/-- The symbols of a reference, with one symbol for a dotted quad. -/
def templateSymbols : List Symbol :=
  [.uriReference, .uri, .relativeRef, .hierPart, .relativePart, .authority, .userinfoOpt,
    .portOpt, .port, .digit, .queryOpt, .fragmentOpt, .scheme, .alpha, .schemeTail,
    .schemeByte, .userinfo, .userByte, .host, .ipLiteral, .ipv6Address, .h16Colon, .h16, .hex3,
    .hex2, .hex1, .xdigit, .ls32, .h16s1, .h16s2, .h16s3, .h16s4, .h16s5, .h16s6, .h16s7,
    .ipv4Address, .ipvFuture, .version, .xdigits, .futureByte, .futureBytes, .regName,
    .regByte, .pathAbempty, .pathAbsolute, .pathNoscheme, .pathRootless, .slashSegment,
    .pathSegment, .segmentNz, .segmentNzNc, .pchar, .pcharNc, .query, .fragment, .queryByte,
    .nonAscii, .unreserved, .subDelims, .pctEncoded, .lit 35, .lit 37, .lit 46, .lit 47,
    .lit 58, .lit 63, .lit 64, .lit 91, .lit 93]

/-- All symbols of a reference. -/
def symbols : List Symbol :=
  templateSymbols ++ [.decOctet, .nonzero, .upTo4, .upTo5, .two, .lit 49, .lit 50, .lit 53]

theorem symbols_closed : closed (rule .source) symbols [(1, 255)] = true := by decide

theorem templateSymbols_closed :
    closed (rule .hole) templateSymbols [(0, 0), (33, 255)] = true := by
  decide

/-- How many dotted quads a symbol stands for at most. -/
def quads (n : Symbol) : ℕ :=
  if n ∈ [Symbol.uriReference, .uri, .relativeRef, .hierPart, .relativePart, .authority, .host,
    .ipLiteral, .ipv6Address, .ls32, .ipv4Address] then 1 else 0

theorem template : Template (rule .source) (rule .hole) .ipv4Address 0 (· ∈ symbols) where
  hole_rule := rfl
  same := by
    intro n hn
    cases n with
    | ipv4Address => exact absurd rfl hn
    | _ => rfl
  free := by
    intro n on hn _ hon
    have hcheck := List.all_eq_true.mp symbols_closed n hn
    rw [hon] at hcheck
    by_contra hin
    have hbyte := within_of_inside hcheck (Bool.not_eq_false _ ▸ hin)
    exact absurd hbyte (by decide)
  closed := by
    intro n alternatives a hn hone ha m hm
    have hcheck := List.all_eq_true.mp symbols_closed n hn
    simp only [hone, List.all_eq_true] at hcheck
    simpa using hcheck a ha m hm

theorem count_hole {t : List UInt8} (h : Derives (rule .hole) [.uriReference] t) :
    t.count 0 ≤ 1 := by
  have hle : t.count 0 ≤ ([Symbol.uriReference].map quads).sum :=
    h.count_le (T := templateSymbols) quads (by decide) (by decide)
  simpa [quads] using hle

theorem ne_two_of_template {t : List UInt8} (h : Derives (rule .hole) [.uriReference] t) :
    2 ∉ t := by
  intro hmem
  have hin := h.within_of_closed templateSymbols_closed (by decide) 2 hmem
  exact absurd hin (by decide)

/-- A reference with a dotted quad, as a host or at the end of an IPv6 address,
in which octets from 200 to 249 are there and have the byte `2` in place of their
first digit. -/
def ControlQuad (s : List UInt8) : Prop :=
  ∃ pre o post, IsQuad o ∧ HasHighOctet o ∧ s = pre ++ quadText 2 o ++ post ∧
    Derives (rule .hole) [.uriReference] (pre ++ 0 :: post)

theorem controlQuad_iff (s : List UInt8) :
    ControlQuad s ↔ Derives (rule .source) [.uriReference] s ∧ 2 ∈ s := by
  rw [template.derives_iff (k := [.uriReference]) (by decide)]
  constructor
  · rintro ⟨pre, o, post, ho, hhigh, rfl, ht⟩
    have hcount := count_hole ht
    rw [List.count_append, List.count_cons_self] at hcount
    refine ⟨⟨_, ht, fills_append (derives_quad.mpr ⟨o, ho, rfl⟩) ?_ ?_⟩, ?_⟩
    · exact List.count_eq_zero.mp (by omega)
    · exact List.count_eq_zero.mp (by omega)
    · exact List.mem_append_left _ (List.mem_append_right _ ((two_mem_quadText ho).mpr hhigh))
  · rintro ⟨⟨t, ht, hfill⟩, htwo⟩
    by_cases hhole : 0 ∈ t
    · have hone : t.count 0 = 1 :=
        le_antisymm (count_hole ht) (List.count_pos_iff.mpr hhole)
      obtain ⟨pre, x, post, rfl, rfl, hx⟩ := hfill.of_count hone
      obtain ⟨o, ho, rfl⟩ := derives_quad.mp hx
      refine ⟨pre, o, post, ho, (two_mem_quadText ho).mp ?_, rfl, ht⟩
      have hno := ne_two_of_template ht
      simp only [List.mem_append, List.mem_cons, not_or] at hno htwo
      rcases htwo with (htwo | htwo) | htwo
      · exact absurd htwo hno.1
      · exact htwo
      · exact absurd htwo hno.2.2
    · rw [← hfill.eq_of_not_mem hhole] at htwo
      exact absurd htwo (ne_two_of_template ht)

/-! ## The two languages -/

/-- The automaton of `Create` ends in an accepting state. -/
def Accepts (s : List UInt8) : Prop := uriTable.accepts final 451 s = true

/-- The RFC derives the string as a URI reference. -/
def IsReference (s : List UInt8) : Prop := Derives (rule .rfc) [.uriReference] s

theorem ne_two_of_reference {s : List UInt8} (h : IsReference s) : ∀ c ∈ s, c ≠ 2 := by
  intro c hc heq
  have hclosed : closed (rule .rfc) symbols [(33, 255)] = true := by decide
  have hin := Derives.within_of_closed hclosed h (by decide) c hc
  rw [heq] at hin
  exact absurd hin (by decide)

/-- **The automaton and the RFC** agree on a string if and only if the RFC derives
it, if at all, without a capital `V` in front of an `IPvFuture`, without an octet
from 200 to 249 in an IP literal and with no groups or as many as there can be in
front of a `::`, and it has no quad with such an octet written with the byte `2`. -/
theorem accepts_iff_isReference_iff (s : List UInt8) :
    (Accepts s ↔ IsReference s) ↔
      (IsReference s → Derives (rule .shared) [.uriReference] s) ∧ ¬ControlQuad s := by
  rw [controlQuad_iff, Accepts, uriTable_accepts]
  constructor
  · intro h
    refine ⟨fun href => derives_shared (h.mpr href) (ne_two_of_reference href), ?_⟩
    rintro ⟨hsource, htwo⟩
    exact ne_two_of_reference (h.mp hsource) 2 htwo rfl
  · rintro ⟨hshared, hcontrol⟩
    constructor
    · intro hsource
      refine derives_of_shared (by decide) (derives_shared hsource fun c hc heq => ?_)
      exact hcontrol ⟨hsource, heq ▸ hc⟩
    · intro href
      exact derives_of_shared (by decide) (hshared href)

/-- A plain IPv6 address is not accepted, a control byte is, and an address with the
octet 200 is not. -/
theorem accepts_differs :
    IsReference (bytes "http://[fe80::1]") ∧ ¬Accepts (bytes "http://[fe80::1]") ∧
      Accepts (bytes "http://[::" ++ 2 :: bytes "00.1.1.1]") ∧
      ¬IsReference (bytes "http://[::" ++ 2 :: bytes "00.1.1.1]") ∧
      IsReference (bytes "http://[::200.1.1.1]") ∧
      ¬Accepts (bytes "http://[::200.1.1.1]") := by
  refine ⟨derives_of_recognize 400 (by decide), by unfold Accepts; decide,
    by unfold Accepts; decide, not_derives_of_recognize 400 (by decide),
    derives_of_recognize 400 (by decide), by unfold Accepts; decide⟩

end Uri

end Skt
