import Skt.Uri.Parts

/-!
# When `Create` throws

`markh` at the start of a path and `save_port` behind the port in front of it
fall on one transition, and where the port is empty `markh` runs once, for both:
`save_port` leaves a null `mark` to `save_path`. No other transition builds a
string from a null `mark`.
-/

namespace Skt

set_option maxRecDepth 4000

namespace Uri

open Lib Lib.Ragel Lib.Grammar UriGrammar

/-! ## What is known about `mark` -/

/-- The states in which `mark` is not null. -/
def markedStates : List (ℕ × ℕ) :=
  [(1, 2), (7, 242), (245, 450), (454, 454), (457, 457), (460, 468), (470, 508), (512, 512),
    (514, 521), (523, 560)]

/-- Whether `mark` is not null behind an action. -/
def setsMark (a : UriAction) (f : Bool) : Bool :=
  match a with
  | .mark => true
  | .saveHost => f
  | _ => false

/-- What an action needs of `mark`. -/
def needsMark (a : UriAction) (f : Bool) : Bool :=
  match a with
  | .saveScheme | .savePort | .savePath | .saveQuery | .saveFragment => f
  | _ => true

/-- `mark` is not behind the current byte, and not null if `f` says so. -/
def MarkKnown (f : Bool) (p : ℕ) (x : Scan) : Prop :=
  (f = true → x.mark ≠ none) ∧ ∀ m ∈ x.mark, m ≤ p

section Known

variable {s : List UInt8} {p q : ℕ} {x x' : Scan} {f : Bool}

theorem marked_ok (h : MarkKnown true p x) : ∃ w, marked s x.mark p = .ok w := by
  obtain ⟨m, hm⟩ := Option.ne_none_iff_exists'.mp (h.1 rfl)
  have hle := h.2 m hm
  refine ⟨(s.drop m).take (p - m), ?_⟩
  rw [hm, marked, if_neg (by omega)]

/-- An action that finds what it needs does not fail. -/
theorem act_ok {a : UriAction} (h : MarkKnown f p x) (ha : needsMark a f = true) :
    ∃ x', act s p a x = .ok x' := by
  have hneeds : f = true → ∃ w, marked s x.mark p = .ok w := by
    rintro rfl
    exact marked_ok h
  have hset : x.mark ≠ none → ∃ w, marked s x.mark p = .ok w := fun hne =>
    marked_ok ⟨fun _ => hne, h.2⟩
  cases a with
  | mark => exact ⟨_, rfl⟩
  | savePort =>
      obtain ⟨m, hm⟩ := Option.ne_none_iff_exists'.mp (h.1 ha)
      simp only [act, hm]
      split_ifs <;> exact ⟨_, rfl⟩
  | saveUserinfo =>
      by_cases hx : x.mark = none
      · exact ⟨x, by simp [act, hx]⟩
      · obtain ⟨w, hw⟩ := hset hx
        simp only [act, if_neg hx, hw, Except.map]
        exact ⟨_, rfl⟩
  | saveHost =>
      by_cases hx : x.mark = none
      · exact ⟨x, by simp [act, hx]⟩
      · obtain ⟨w, hw⟩ := hset hx
        simp only [act, if_neg hx, hw, Except.map]
        exact ⟨_, rfl⟩
  | saveScheme | savePath | saveQuery | saveFragment =>
      obtain ⟨w, hw⟩ := hneeds ha
      simp only [act, hw, Except.map]
      exact ⟨_, rfl⟩

/-- `mark` behind an action. -/
def markAfter (p : ℕ) (mark : Option ℕ) : UriAction → Option ℕ
  | .mark => some p
  | .saveHost => mark
  | _ => none

theorem mark_of_act {a : UriAction} (hact : act s p a x = .ok x') :
    x'.mark = markAfter p x.mark a := by
  cases a with
  | mark =>
      cases hact
      rfl
  | savePort =>
      simp only [act] at hact
      split_ifs at hact
      · cases hact
        rfl
      · cases hm : x.mark with
        | none => simp [hm] at hact
        | some m =>
            simp only [hm, Except.ok.injEq] at hact
            rw [← hact]
            rfl
  | saveUserinfo =>
      simp only [act] at hact
      split_ifs at hact with hx
      · cases hact
        exact hx
      · cases hw : marked s x.mark p with
        | error e => simp [hw, Except.map] at hact
        | ok w =>
            simp only [hw, Except.map, Except.ok.injEq] at hact
            rw [← hact]
            rfl
  | saveHost =>
      simp only [act] at hact
      split_ifs at hact with hx
      · cases hact
        rfl
      · cases hw : marked s x.mark p with
        | error e => simp [hw, Except.map] at hact
        | ok w =>
            simp only [hw, Except.map, Except.ok.injEq] at hact
            rw [← hact]
            rfl
  | saveScheme | savePath | saveQuery | saveFragment =>
      simp only [act] at hact
      cases hw : marked s x.mark p with
      | error e => simp [hw, Except.map] at hact
      | ok w =>
          simp only [hw, Except.map, Except.ok.injEq] at hact
          rw [← hact]
          rfl

theorem markKnown_act {a : UriAction} (h : MarkKnown f p x) (hact : act s p a x = .ok x') :
    MarkKnown (setsMark a f) p x' := by
  have hmark := mark_of_act hact
  cases a with
  | mark => exact ⟨fun _ => by rw [hmark]; simp [markAfter], by rw [hmark]; simp [markAfter]⟩
  | saveHost => exact ⟨by rw [hmark]; exact h.1, by rw [hmark]; exact h.2⟩
  | _ => exact ⟨by simp [setsMark], by rw [hmark]; simp [markAfter]⟩

end Known

theorem markKnown_runActs {s : List UInt8} {p : ℕ} :
    ∀ (as : List UriAction) {f : Bool} {x x' : Scan}, MarkKnown f p x →
      runActs (act s) p as x = .ok x' → MarkKnown (recordAll setsMark as f) p x'
  | [], f, x, x', h, hacts => by
      obtain rfl : x = x' := by simpa [runActs] using hacts
      exact h
  | a :: as, f, x, x', h, hacts => by
      simp only [runActs] at hacts
      cases ha : act s p a x with
      | error e => simp [ha] at hacts
      | ok x₁ =>
          simp only [ha] at hacts
          exact markKnown_runActs as (markKnown_act h ha) hacts

theorem runActs_ok (s : List UInt8) {p : ℕ} :
    ∀ (as : List UriAction) {f : Bool} {x : Scan}, MarkKnown f p x →
      admits setsMark needsMark as f = true → ∃ x', runActs (act s) p as x = .ok x'
  | [], f, x, _, _ => ⟨x, rfl⟩
  | a :: as, f, x, h, hadm => by
      simp only [admits, Bool.and_eq_true] at hadm
      obtain ⟨x₁, ha⟩ := act_ok (s := s) h hadm.1
      obtain ⟨x', hacts⟩ := runActs_ok s as (markKnown_act h ha) hadm.2
      exact ⟨x', by simp only [runActs, ha, hacts]⟩

/-! ## Where `Create` throws -/

/-- The states behind an empty port and behind a path. -/
def pathOpen : List (ℕ × ℕ) := [(513, 514), (521, 521)]

/-- The actions of a transition find what they need, but for the end of a path. -/
theorem marks_checked : uriTable.rows [(0, 560)] [(0, 255)] (fun q r =>
    (!within markedStates r.target || recordAll setsMark r.acts (within markedStates q)) &&
      (admits setsMark needsMark r.acts (within markedStates q) ||
        (within pathOpen q && (r.on == [(35, 35)] || r.on == [(63, 63)])))) = true := by
  decide

theorem eof_checked : ∀ q < 561, (admits setsMark needsMark (eofActs q)
    (within markedStates q) || within pathOpen q) = true := by
  decide

theorem eofActs_of_le {q : ℕ} (h : 561 ≤ q) : eofActs q = [] := by
  have hbound : ∀ e ∈ uriEofTable, ∀ b ∈ e.1, b.2 < 561 := by decide
  have hnone : uriEofTable.find? (fun e => within e.1 q) = none := by
    refine List.find?_eq_none.mpr fun e he hq => ?_
    simp only [within, List.any_eq_true, Bool.and_eq_true, decide_eq_true_eq] at hq
    obtain ⟨b, hb, -, hle⟩ := hq
    have := hbound e he b hb
    omega
  rw [eofActs, hnone]

theorem within_bytes (c : UInt8) : within [(0, 255)] c.toNat = true := by
  have := c.toNat_lt
  simp [within]
  omega

theorem length_uriTable : uriTable.length = 561 := by decide

theorem within_of_lt {q : ℕ} (h : q < 561) : within [(0, 560)] q = true := by
  simp only [within_cons, within_nil, Bool.false_eq_true, or_false]
  omega

section Throws

variable {s : List UInt8} {p q : ℕ} {x : Scan}

theorem markKnown_next {c : UInt8} {r : Row UriAction} {x' : Scan}
    (h : MarkKnown (within markedStates q) p x) (hnext : uriTable.next false q c = some r)
    (hacts : runActs (act s) p r.acts x = .ok x') :
    MarkKnown (within markedStates r.target) (p + 1) x' := by
  have hlt := lt_length_of_next hnext
  rw [length_uriTable] at hlt
  have hcheck := rows_next marks_checked (within_of_lt hlt) (within_bytes c) hnext
  simp only [Bool.and_eq_true, Bool.or_eq_true, Bool.not_eq_true'] at hcheck
  obtain ⟨hset, hle⟩ := markKnown_runActs _ h hacts
  refine ⟨fun htarget => hset ?_, fun m hm => (hle m hm).trans (Nat.le_succ p)⟩
  rcases hcheck.1 with hno | hyes
  · rw [hno] at htarget
    cases htarget
  · exact hyes

theorem pathOpen_of_error {c : UInt8} {r : Row UriAction} {e : Fault}
    (h : MarkKnown (within markedStates q) p x) (hnext : uriTable.next false q c = some r)
    (hacts : runActs (act s) p r.acts x = .error e) :
    within pathOpen q = true ∧ (c = 35 ∨ c = 63) := by
  have hlt := lt_length_of_next hnext
  rw [length_uriTable] at hlt
  have hcheck := rows_next marks_checked (within_of_lt hlt) (within_bytes c) hnext
  simp only [Bool.and_eq_true, Bool.or_eq_true, beq_iff_eq] at hcheck
  rcases hcheck.2 with hadm | ⟨hopen, hon⟩
  · obtain ⟨x', hok⟩ := runActs_ok s _ h hadm
    rw [hok] at hacts
    cases hacts
  · have hc := within_of_next hnext
    refine ⟨hopen, ?_⟩
    rcases hon with hon | hon
    · rw [hon] at hc
      exact Or.inl (UInt8.toNat_inj.mp (within_iff_eq.mp hc))
    · rw [hon] at hc
      exact Or.inr (UInt8.toNat_inj.mp (within_iff_eq.mp hc))

/-- The rest of `Create` from position `p` on: the loop and the actions at the
end. -/
def finish (s : List UInt8) (p q : ℕ) (x : Scan) : Except Fault (Option Uri) := do
  let (p, q, x) ← go s p q x
  let x ← runActs (act s) p (eofActs q) x
  return if final q then some x.uri else none

/-- A path ends at the end of the string, at `?` or at `#`. -/
def PathEnd (rest : List UInt8) : Prop :=
  rest = [] ∨ rest.head? = some 35 ∨ rest.head? = some 63

/-- **Where it throws.** In front of the end of a path, in a state behind an empty
port or behind a path. -/
theorem finish_error {e : Fault} (h : MarkKnown (within markedStates q) p x)
    (herror : finish s p q x = .error e) :
    ∃ u rest q', s.drop p = u ++ rest ∧ uriTable.run q u = some q' ∧
      within pathOpen q' = true ∧ PathEnd rest := by
  cases hgo : go s p q x with
  | error e' =>
      obtain ⟨u, c, v, q', x', r, hs, hrun, hI, hnext, hfail⟩ :=
        exec_error_at (I := fun q p x => MarkKnown (within markedStates q) p x)
          markKnown_next _ h hgo
      obtain ⟨hopen, hc⟩ := pathOpen_of_error hI hnext hfail
      refine ⟨u, c :: v, q', hs, hrun, hopen, Or.inr ?_⟩
      rcases hc with rfl | rfl
      · exact Or.inl rfl
      · exact Or.inr rfl
  | ok y =>
      obtain ⟨p', q', x'⟩ := y
      simp only [finish, hgo, bind, Except.bind, pure, Except.pure] at herror
      rcases exec_ok_at (I := fun q p x => MarkKnown (within markedStates q) p x)
        markKnown_next _ h hgo with rfl | ⟨hrun, -, hI⟩
      · rw [show eofActs 0 = [] by decide] at herror
        simp [runActs] at herror
      · refine ⟨s.drop p, [], q', (List.append_nil _).symm, hrun, ?_, Or.inl rfl⟩
        by_contra hopen
        by_cases hlt : q' < 561
        · have hcheck := eof_checked q' hlt
          rw [Bool.or_eq_true] at hcheck
          obtain ⟨x'', hok⟩ := runActs_ok s _ hI (hcheck.resolve_right hopen)
          simp [hok] at herror
        · simp [eofActs_of_le (not_lt.mp hlt), runActs] at herror

end Throws

/-! ## An authority in front -/

/-- The states behind `"://"`, but for those in a query or a fragment. -/
def authorityRegion : List (ℕ × ℕ) := [(229, 450), (511, 560)]

/-- What was read in front of a state. -/
structure ReadUpTo (u : List UInt8) (q : ℕ) : Prop where
  start : q = 451 → u = []
  scheme : q = 508 → Derives (rule .source) [.scheme] u
  colon : q = 509 → ∃ v, u = v ++ [58] ∧ Derives (rule .source) [.scheme] v
  slash : q = 510 → ∃ v, u = v ++ [58, 47] ∧ Derives (rule .source) [.scheme] v
  slashes : within authorityRegion q = true →
    ∃ v rest, u = v ++ 58 :: 47 :: 47 :: rest ∧ Derives (rule .source) [.scheme] v

theorem entries_checked : uriTable.rows [(0, 560)] [(0, 255)] (fun q r =>
    (r.target != 451) &&
    (r.target != 508 || (q == 451 && inside r.on [(65, 90), (97, 122)]) ||
      (q == 508 && inside r.on schemeBytes)) &&
    (r.target != 509 || (q == 508 && r.on == [(58, 58)])) &&
    (r.target != 510 || (q == 509 && r.on == [(47, 47)])) &&
    (!within authorityRegion r.target || within authorityRegion q ||
      (q == 510 && r.on == [(47, 47)]))) = true := by
  decide

theorem readUpTo_next {u : List UInt8} {q : ℕ} {c : UInt8} {r : Row UriAction}
    (h : ReadUpTo u q) (hnext : uriTable.next false q c = some r) :
    ReadUpTo (u ++ [c]) r.target := by
  have hlt := lt_length_of_next hnext
  rw [length_uriTable] at hlt
  have hcheck := rows_next entries_checked (within_of_lt hlt) (within_bytes c) hnext
  simp only [Bool.and_eq_true, Bool.or_eq_true, bne_iff_ne, beq_iff_eq,
    Bool.not_eq_true'] at hcheck
  obtain ⟨⟨⟨⟨hstart, hscheme⟩, hcolon⟩, hslash⟩, hslashes⟩ := hcheck
  have hc := within_of_next hnext
  refine ⟨fun heq => absurd heq hstart, fun heq => ?_, fun heq => ?_, fun heq => ?_,
    fun hin => ?_⟩
  · rcases hscheme with (hne | ⟨hq, hon⟩) | ⟨hq, hon⟩
    · exact absurd heq hne
    · rw [h.start hq]
      exact derives_scheme.mpr ⟨c, [], rfl, within_of_inside hon hc, by simp⟩
    · obtain ⟨e, v, rfl, he, hv⟩ := derives_scheme.mp (h.scheme hq)
      refine derives_scheme.mpr ⟨e, v ++ [c], rfl, he, fun b hb => ?_⟩
      rcases List.mem_append.mp hb with hb | hb
      · exact hv b hb
      · rw [List.mem_singleton.mp hb]
        exact within_of_inside hon hc
  · rcases hcolon with hne | ⟨hq, hon⟩
    · exact absurd heq hne
    · rw [hon] at hc
      exact ⟨u, by rw [UInt8.toNat_inj.mp (within_iff_eq.mp hc : c.toNat = (58 : UInt8).toNat)],
        h.scheme hq⟩
  · rcases hslash with hne | ⟨hq, hon⟩
    · exact absurd heq hne
    · rw [hon] at hc
      obtain ⟨v, rfl, hv⟩ := h.colon hq
      refine ⟨v, ?_, hv⟩
      rw [UInt8.toNat_inj.mp (within_iff_eq.mp hc : c.toNat = (47 : UInt8).toNat)]
      simp
  · rcases hslashes with (hout | hq) | ⟨hq, hon⟩
    · rw [hout] at hin
      cases hin
    · obtain ⟨v, rest, rfl, hv⟩ := h.slashes hq
      exact ⟨v, rest ++ [c], by simp, hv⟩
    · rw [hon] at hc
      obtain ⟨v, rfl, hv⟩ := h.slash hq
      refine ⟨v, [], ?_, hv⟩
      rw [UInt8.toNat_inj.mp (within_iff_eq.mp hc : c.toNat = (47 : UInt8).toNat)]
      simp

theorem readUpTo_run {w : List UInt8} {q : ℕ} (hrun : uriTable.run 451 w = some q) :
    ReadUpTo w q := by
  refine run_invariant readUpTo_next w (u := []) ?_ hrun
  exact ⟨fun _ => rfl, by simp, by simp, by simp, fun h => absurd h (by decide)⟩

/-! ## Parts of an accepted string -/

theorem run_scheme {v rest : List UInt8} {q : ℕ} (hv : Derives (rule .source) [.scheme] v)
    (hrun : uriTable.run 451 (v ++ 58 :: 47 :: 47 :: rest) = some q) :
    uriTable.run 511 rest = some q := by
  obtain ⟨c, w, rfl, hc, hw⟩ := derives_scheme.mp hv
  have hs : c :: w ++ 58 :: 47 :: 47 :: rest = c :: w ++ 58 :: 47 :: 47 :: rest := rfl
  exact (go_scheme (u := new) hs hc hw hrun).1

/-- Every accepted string with `"://"` behind a scheme has parts. -/
theorem exists_parts {v rest : List UInt8} {q : ℕ} (hv : Derives (rule .source) [.scheme] v)
    (hrun : uriTable.run 451 (v ++ 58 :: 47 :: 47 :: rest) = some q) (hfinal : final q = true) :
    ∃ p : Parts .source, p.text = v ++ 58 :: 47 :: 47 :: rest ∧ p.scheme = v := by
  have haccepts : uriTable.accepts final 511 rest = true := by
    rw [Table.accepts, run_scheme hv hrun]
    exact hfinal
  obtain ⟨auth, path, query, fragment, rfl, hauth, hpath, hquery, hfragment⟩ :=
    derives_rest.mp ((uriTable_accepts_authority rest).mp haccepts)
  obtain ⟨user, host, port, rfl, huser, hhost, hport⟩ := derives_authority.mp hauth
  refine ⟨⟨v, user, host, port, path, query, fragment, hv, huser, hhost, hport, hpath, hquery,
    hfragment⟩, ?_, rfl⟩
  simp [Parts.text, Parts.front, Parts.authority]

/-- The states of a query and a fragment. -/
def tailRegion : List (ℕ × ℕ) := [(1, 2), (7, 8), (453, 454), (456, 457)]

theorem tailRegion_closed :
    uriTable.rows tailRegion [(0, 255)] (fun _ r => within tailRegion r.target) = true := by
  decide

/-- In a state behind a path there was neither a query nor a fragment. -/
theorem Parts.text_eq_front (p : Parts .source) {q : ℕ}
    (hrun : uriTable.run 451 p.text = some q) (hq : within pathOpen q = true) :
    p.text = p.front := by
  have htext : p.text = p.front ++ optText 63 p.query ++ optText 35 p.fragment := rfl
  have hout : within tailRegion q = false := by
    simp only [pathOpen, within_cons, within_nil, Bool.false_eq_true, or_false] at hq
    rw [← Bool.not_eq_true]
    simp only [tailRegion, within_cons, within_nil, Bool.false_eq_true, or_false]
    omega
  obtain ⟨q₀, x₀, hrun₀, hq₀, -, -⟩ := p.go_front (List.append_nil _).symm
  have hrun₁ := run_split (by rw [htext, List.append_assoc] at hrun; exact hrun) hrun₀
  cases hquery : p.query with
  | some w =>
      rw [hquery] at hrun₁
      obtain ⟨r, -, -, hr, hrun₂⟩ := leads_next layout.path_query hq₀ (c := 63) (by decide)
        hrun₁
      rw [within_iff_eq.mp hr] at hrun₂
      rw [run_closed tailRegion_closed (by decide) hrun₂] at hout
      cases hout
  | none =>
      cases hfragment : p.fragment with
      | some w =>
          rw [hquery, hfragment] at hrun₁
          obtain ⟨r, -, -, hr, hrun₂⟩ := leads_next layout.fragment
            (within_cons.mpr (Or.inr hq₀)) (c := 35) (by decide) hrun₁
          rw [within_iff_eq.mp hr] at hrun₂
          rw [run_closed tailRegion_closed (by decide) hrun₂] at hout
          cases hout
      | none =>
          rw [htext, hquery, hfragment]
          simp [optText]

/-! ## The empty port -/

/-- The string starts with a scheme, `"://"`, an authority that ends in an empty
port, and a path, and the path ends there. -/
def EmptyPort (s : List UInt8) : Prop :=
  ∃ (p : Parts .source) (rest : List UInt8), p.port = some [] ∧ s = p.front ++ rest ∧
    PathEnd rest

theorem finish_of_go {s : List UInt8} {p q p' q' : ℕ} {x x' : Scan}
    (h : go s p q x = go s p' q' x') : finish s p q x = finish s p' q' x' := by
  rw [finish, finish, h]

/-- Behind a path the run goes on in a query or a fragment. -/
theorem next_pathEnd (p : Parts .source) {c : UInt8} {q : ℕ} (hc : c = 35 ∨ c = 63)
    (hrun : uriTable.run 451 p.front = some q) (hq : within pathEnds q = true) :
    ∃ r, uriTable.next false q c = some r ∧ r.acts = endActs q ∧
      (r.target = 453 ∨ r.target = 456) := by
  rcases hc with rfl | rfl
  · obtain ⟨q', hrun', -⟩ := Parts.stages
      { p.bare with
        fragment := some []
        fragment_derives := by
          intro w hw
          obtain rfl : [] = w := by simpa using hw
          exact .oneOf rfl List.mem_cons_self .nil } |>.run_text
    obtain ⟨r, hnext, hacts, hr, -⟩ := leads_next layout.fragment
      (within_cons.mpr (Or.inr hq)) (c := 35) (by decide)
      (run_split (u := p.front) (v := [35])
        (by simpa [Parts.text, Parts.bare, Parts.front, Parts.authority, optText] using hrun')
        hrun)
    exact ⟨r, hnext, hacts, Or.inl (within_iff_eq.mp hr)⟩
  · obtain ⟨q', hrun', -⟩ := Parts.stages
      { p.bare with
        query := some []
        query_derives := by
          intro w hw
          obtain rfl : [] = w := by simpa using hw
          exact .oneOf rfl List.mem_cons_self .nil } |>.run_text
    obtain ⟨r, hnext, hacts, hr, -⟩ := leads_next layout.path_query hq (c := 63) (by decide)
      (run_split (u := p.front) (v := [63])
        (by simpa [Parts.text, Parts.bare, Parts.front, Parts.authority, optText] using hrun')
        hrun)
    exact ⟨r, hnext, hacts, Or.inr (within_iff_eq.mp hr)⟩

theorem pathEnd_cases {rest : List UInt8} (h : PathEnd rest) :
    rest = [] ∨ ∃ c v, rest = c :: v ∧ (c = 35 ∨ c = 63) := by
  cases rest with
  | nil => exact Or.inl rfl
  | cons c v => exact Or.inr ⟨c, v, rfl, by simpa [PathEnd] using h⟩

theorem create_eq_finish (s : List UInt8) : create s = finish s 0 451 ⟨none, new⟩ := rfl

/-- An empty port makes the end of the path throw. -/
theorem create_of_emptyPort {s : List UInt8} (h : EmptyPort s) :
    create s = .error .nullString := by
  obtain ⟨p, rest, hport, rfl, hend⟩ := h
  obtain ⟨q, x, hrun, hq, hgo, hacts⟩ := p.go_front rfl
  rw [if_pos hport] at hacts
  rw [create_eq_finish, finish_of_go hgo]
  have hdrop : (p.front ++ rest).drop p.front.length = rest := List.drop_left
  rcases pathEnd_cases hend with rfl | ⟨c, v, rfl, hc⟩
  · rw [finish, go_end hdrop]
    simp only [bind, Except.bind]
    rw [eofActs_eq_endActs (within_cons.mpr (Or.inr hq)), hacts]
  · obtain ⟨r, hnext, hr, -⟩ := next_pathEnd p hc hrun hq
    have herror : go (p.front ++ c :: v) p.front.length q x = .error .nullString := by
      rw [go, execFrom, hdrop]
      simp only [exec, hnext, hr, hacts]
    rw [finish, herror]
    rfl

/-- Behind a path whose end is saved nothing throws. -/
theorem not_error_of_front (p : Parts .source) {s rest : List UInt8} {e : Fault}
    (hs : s = p.front ++ rest) (hport : p.port ≠ some []) (hend : PathEnd rest) :
    create s ≠ .error e := by
  intro herror
  obtain ⟨q, x, hrun, hq, hgo, hacts⟩ := p.go_front hs
  rw [if_neg hport] at hacts
  rw [create_eq_finish, finish_of_go hgo] at herror
  have hdrop : s.drop p.front.length = rest := by rw [hs, List.drop_left]
  rcases pathEnd_cases hend with rfl | ⟨c, v, rfl, hc⟩
  · rw [finish, go_end hdrop] at herror
    simp only [bind, Except.bind] at herror
    rw [eofActs_eq_endActs (within_cons.mpr (Or.inr hq)), hacts] at herror
    simp [pure, Except.pure] at herror
  · obtain ⟨r, hnext, hr, htail⟩ := next_pathEnd p hc hrun hq
    have hstep : go s p.front.length q x =
        go s (p.front.length + 1) r.target ⟨none, p.frontUri (p.path ++ c :: v)⟩ :=
      execFrom_step hdrop hnext (by rw [hr]; exact hacts)
        (List.any_eq_false.mpr fun _ _ => by simp)
    rw [finish_of_go hstep] at herror
    have hknown : MarkKnown (within markedStates r.target) (p.front.length + 1)
        ⟨none, p.frontUri (p.path ++ c :: v)⟩ := by
      refine ⟨fun hmarked => absurd hmarked ?_, by simp⟩
      rcases htail with htail | htail <;> rw [htail] <;> decide
    obtain ⟨u, rest', q', -, hrun', hopen, -⟩ := finish_error hknown herror
    have hin := run_closed tailRegion_closed
      (by rcases htail with htail | htail <;> rw [htail] <;> decide) hrun'
    simp only [pathOpen, tailRegion, within_cons, within_nil, Bool.false_eq_true,
      or_false] at hopen hin
    omega

/-- **`Create` throws exactly on an empty port in front of the end of a path.** -/
theorem create_ok_iff (s : List UInt8) : (∃ r, create s = .ok r) ↔ ¬EmptyPort s := by
  constructor
  · rintro ⟨r, hr⟩ hempty
    rw [create_of_emptyPort hempty] at hr
    cases hr
  · intro hempty
    cases hcreate : create s with
    | ok r => exact ⟨r, rfl⟩
    | error e =>
        exfalso
        have hknown : MarkKnown (within markedStates 451) 0 ⟨none, new⟩ :=
          ⟨fun h => absurd h (by decide), by simp⟩
        obtain ⟨w, rest, q, hs, hrun, hopen, hend⟩ := finish_error (s := s) hknown hcreate
        have hin : within authorityRegion q = true ∧ final q = true := by
          simp only [pathOpen, authorityRegion, final, decide_eq_true_eq, within_cons,
            within_nil, Bool.false_eq_true, or_false] at hopen ⊢
          omega
        obtain ⟨v, rest', rfl, hv⟩ := (readUpTo_run hrun).slashes hin.1
        obtain ⟨p, htext, -⟩ := exists_parts hv hrun hin.2
        rw [← htext] at hs hrun
        rw [p.text_eq_front hrun hopen] at hs
        by_cases hport : p.port = some []
        · exact hempty ⟨p, rest, hport, hs, hend⟩
        · exact not_error_of_front p hs hport hend hcreate

/-- A scheme and a host with a `:` behind it. -/
theorem create_empty_port_throws : create (bytes "http://h:") = .error .nullString := by
  decide

end Uri

end Skt
