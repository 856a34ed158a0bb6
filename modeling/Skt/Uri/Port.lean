import Skt.Address.Text
import Skt.Uri.Correct
import Skt.Uri.Reference

/-!
# The port of a reference

An authority may stand behind a scheme or without one. The states for the second case are
a copy of those for the first, up to the end of the authority, and `save_port` runs in both.
Its value goes through `atoi`, an `int32_t` and the `uint16_t` of `setPort`.
-/

namespace Skt

set_option maxRecDepth 4000

namespace Uri

open Lib Lib.CString Lib.Ragel Lib.Grammar UriGrammar

/-! ## The states without a scheme -/

/-- The states behind `"//"` without a scheme, up to the end of the authority. -/
def relativeStates : List (ℕ × ℕ) := [(9, 228), (459, 507)]

/-- The state that reads an authority behind a scheme in the same way. -/
def sibling (q : ℕ) : ℕ :=
  if q ≤ 22 then q + 220 else if q ≤ 228 then q + 222 else if q ≤ 460 then q + 52 else q + 53

/-- All bytes but `#`, `/` and `?`. -/
def authorityBytes : List (ℕ × ℕ) := [(0, 34), (36, 46), (48, 62), (64, 255)]

/-- The rows of a state for such bytes. -/
def inner (rows : List (Row UriAction)) : List (Row UriAction) :=
  rows.filter fun r => meets r.on authorityBytes

/-- What of a row tells on which bytes it leads where. -/
def edge (target : ℕ → ℕ) (r : Row UriAction) : List (ℕ × ℕ) × Bool × ℕ :=
  (r.on, r.guarded, target r.target)

/-- The states from `lo` to `hi` and those by `shift` above them have the same inner rows. -/
def copied (lo hi shift : ℕ) : Bool :=
  (((uriTable.drop lo).take (hi + 1 - lo)).zip (uriTable.drop (lo + shift))).all fun e =>
    (inner e.1).map (edge sibling) == (inner e.2).map (edge id)

theorem inner_of_copied {lo hi shift q : ℕ} (h : copied lo hi shift = true) (hlo : lo ≤ q)
    (hhi : q ≤ hi) (hlen : hi + shift < uriTable.length) :
    (inner (uriTable.getD q [])).map (edge sibling) =
      (inner (uriTable.getD (q + shift) [])).map (edge id) := by
  have hq : q < uriTable.length := by omega
  have hq' : q + shift < uriTable.length := by omega
  have hmem : (uriTable[q], uriTable[q + shift]) ∈
      ((uriTable.drop lo).take (hi + 1 - lo)).zip (uriTable.drop (lo + shift)) := by
    refine List.mem_of_getElem? (i := q - lo) (List.getElem?_zip_eq_some.mpr ⟨?_, ?_⟩)
    · rw [List.getElem?_take_of_lt (by omega), List.getElem?_drop, Nat.add_sub_cancel' hlo]
      exact List.getElem?_eq_getElem hq
    · rw [List.getElem?_drop, Nat.add_right_comm, Nat.add_sub_cancel' hlo]
      exact List.getElem?_eq_getElem hq'
  rw [List.getD_eq_getElem _ _ hq, List.getD_eq_getElem _ _ hq']
  exact eq_of_beq (List.all_eq_true.mp h _ hmem)

theorem copied_relative : copied 9 22 220 = true ∧ copied 23 228 222 = true ∧
    copied 459 460 52 = true ∧ copied 461 507 53 = true := by
  decide

theorem inner_sibling {q : ℕ} (hq : within relativeStates q = true) :
    (inner (uriTable.getD q [])).map (edge sibling) =
      (inner (uriTable.getD (sibling q) [])).map (edge id) := by
  obtain ⟨h₁, h₂, h₃, h₄⟩ := copied_relative
  have hlen := length_uriTable
  simp only [relativeStates, within_cons, within_nil, Bool.false_eq_true, or_false] at hq
  unfold sibling
  split_ifs with hle hle' hle''
  · exact inner_of_copied h₁ (by omega) hle (by omega)
  · exact inner_of_copied h₂ (by omega) hle' (by omega)
  · exact inner_of_copied h₃ (by omega) hle'' (by omega)
  · exact inner_of_copied h₄ (by omega) (by omega) (by omega)

/-- The row for a byte is found among the inner rows. -/
theorem next_inner {q : ℕ} {c : UInt8} (hc : within authorityBytes c.toNat = true) :
    (inner (uriTable.getD q [])).find? (Row.fits false c) = uriTable.next false q c := by
  rw [inner, List.find?_filter, Table.next]
  congr 1
  funext r
  by_cases hfits : r.fits false c = true
  · have hon : within r.on c.toNat = true := by
      rw [Row.fits, Bool.and_eq_true] at hfits
      exact hfits.2
    rw [hfits, meets_of_within hon hc]
    rfl
  · rw [Bool.not_eq_true] at hfits
    simp [hfits]

/-- One step of the two copies. -/
theorem next_sibling {q : ℕ} {c : UInt8} {r : Row UriAction}
    (hq : within relativeStates q = true) (hc : within authorityBytes c.toNat = true)
    (hnext : uriTable.next false q c = some r) :
    ∃ r', uriTable.next false (sibling q) c = some r' ∧ r'.target = sibling r.target := by
  -- Whether a row fits depends on its edge only.
  let fits : List (ℕ × ℕ) × Bool × ℕ → Bool := fun e => Row.fits false c
    (⟨e.1, e.2.1, [], 0⟩ : Row UriAction)
  have hfind : ∀ (target : ℕ → ℕ) (rows : List (Row UriAction)),
      (rows.map (edge target)).find? fits = (rows.find? (Row.fits false c)).map (edge target) :=
    fun target rows => List.find?_map
  have hsame := hfind sibling (inner (uriTable.getD q []))
  rw [inner_sibling hq, hfind, next_inner hc, next_inner hc, hnext, Option.map_some,
    Option.map_eq_some_iff] at hsame
  obtain ⟨r', hr', hedge⟩ := hsame
  exact ⟨r', hr', congrArg (fun e => e.2.2) hedge⟩

theorem relativeStates_stay : uriTable.rows relativeStates authorityBytes (fun _ r =>
    decide (UriAction.savePort ∉ r.acts ∧ UriAction.saveScheme ∉ r.acts) &&
      within relativeStates r.target) = true := by
  decide

theorem run_sibling : ∀ (w : List UInt8) {q q' : ℕ}, within relativeStates q = true →
    (∀ c ∈ w, within authorityBytes c.toNat = true) → uriTable.run q w = some q' →
    within relativeStates q' = true ∧ uriTable.run (sibling q) w = some (sibling q')
  | [], q, q', hq, _, hrun => by
      obtain rfl : q = q' := by simpa [Table.run] using hrun
      exact ⟨hq, rfl⟩
  | c :: w, q, q', hq, hw, hrun => by
      simp only [Table.run] at hrun ⊢
      cases hnext : uriTable.next false q c with
      | none => simp [hnext] at hrun
      | some r =>
          simp only [hnext] at hrun
          have hc := hw c List.mem_cons_self
          have hstay := rows_next relativeStates_stay hq hc hnext
          rw [Bool.and_eq_true] at hstay
          obtain ⟨r', hnext', htarget⟩ := next_sibling hq hc hnext
          rw [hnext']
          simp only [htarget]
          exact run_sibling w hstay.2 (fun d hd => hw d (List.mem_cons_of_mem _ hd)) hrun

/-! ## What leaves the port and the scheme alone -/

/-- The port and the scheme so far. -/
def Holds (n : ℤ) (v : List UInt8) (x : Scan) : Prop := x.uri.port = n ∧ x.uri.scheme = v

section Steps

variable {s : List UInt8} {p q : ℕ} {x x' : Scan} {n : ℤ} {v : List UInt8} {u : Uri}

theorem holds_of_map {f : List UInt8 → Scan} (h : (marked s x.mark p).map f = .ok x')
    (hf : ∀ w, Holds n v (f w)) : Holds n v x' := by
  cases hw : marked s x.mark p with
  | error e => simp [hw, Except.map] at h
  | ok w =>
      simp only [hw, Except.map, Except.ok.injEq] at h
      exact h ▸ hf w

theorem holds_act {a : UriAction} (ha : a ≠ .savePort) (ha' : a ≠ .saveScheme)
    (hx : Holds n v x) (hact : act s p a x = .ok x') : Holds n v x' := by
  cases a with
  | savePort => exact absurd rfl ha
  | saveScheme => exact absurd rfl ha'
  | mark =>
      cases hact
      exact hx
  | saveUserinfo =>
      simp only [act] at hact
      split_ifs at hact
      · cases hact
        exact hx
      · exact holds_of_map hact fun _ => hx
  | saveHost =>
      simp only [act] at hact
      split_ifs at hact
      · cases hact
        exact hx
      · exact holds_of_map hact fun _ => hx
  | savePath | saveQuery | saveFragment =>
      simp only [act] at hact
      exact holds_of_map hact fun _ => hx

theorem holds_runActs {as : List UriAction}
    (has : UriAction.savePort ∉ as ∧ UriAction.saveScheme ∉ as) (hx : Holds n v x)
    (hacts : runActs (act s) p as x = .ok x') : Holds n v x' := by
  refine runActs_invariant as ?_ hx hacts
  intro a ha y y' hy hact
  exact holds_act (fun heq => has.1 (heq ▸ ha)) (fun heq => has.2 (heq ▸ ha)) hy hact

/-- A step of a run that returns. -/
theorem finish_step {c : UInt8} {rest : List UInt8} (hs : s.drop p = c :: rest)
    (h : finish s p q x = .ok (some u)) :
    ∃ r x', uriTable.next false q c = some r ∧ runActs (act s) p r.acts x = .ok x' ∧
      finish s (p + 1) r.target x' = .ok (some u) := by
  cases hnext : uriTable.next false q c with
  | none =>
      have hgo : go s p q x = .ok (p, 0, x) := by
        rw [go, execFrom, hs, exec, hnext]
      have hend : eofActs 0 = [] := by decide
      rw [finish, hgo] at h
      simp [bind, Except.bind, hend, runActs, final, pure, Except.pure] at h
  | some r =>
      cases hacts : runActs (act s) p r.acts x with
      | error e =>
          have hgo : go s p q x = .error e := by
            rw [go, execFrom, hs]
            simp only [exec, hnext, hacts]
          rw [finish, hgo] at h
          cases h
      | ok x' =>
          have hgo : go s p q x = go s (p + 1) r.target x' :=
            execFrom_step hs hnext hacts (List.any_eq_false.mpr fun _ _ => by simp)
          rw [finish_of_go hgo] at h
          exact ⟨r, x', rfl, hacts, h⟩

theorem finish_end (hs : s.drop p = []) (h : finish s p q x = .ok (some u)) :
    ∃ x', runActs (act s) p (eofActs q) x = .ok x' ∧ x'.uri = u := by
  rw [finish, go_end hs] at h
  simp only [bind, Except.bind] at h
  cases hacts : runActs (act s) p (eofActs q) x with
  | error e => simp [hacts] at h
  | ok x' =>
      simp only [hacts, pure, Except.pure, Except.ok.injEq] at h
      split_ifs at h
      exact ⟨x', rfl, Option.some.inj h⟩

/-- A region that does not save a port or a scheme on some bytes. -/
theorem finish_holds {R on : List (ℕ × ℕ)} (hall : uriTable.rows R on (fun _ r =>
    decide (UriAction.savePort ∉ r.acts ∧ UriAction.saveScheme ∉ r.acts) &&
      within R r.target) = true) :
    ∀ (w : List UInt8) {rest : List UInt8} {p q : ℕ} {x : Scan}, s.drop p = w ++ rest →
      within R q = true → (∀ c ∈ w, within on c.toNat = true) → Holds n v x →
      finish s p q x = .ok (some u) →
      ∃ q' x', uriTable.run q w = some q' ∧ within R q' = true ∧ Holds n v x' ∧
        finish s (p + w.length) q' x' = .ok (some u)
  | [], _, p, q, x, _, hq, _, hx, h => ⟨q, x, rfl, hq, hx, h⟩
  | c :: w, rest, p, q, x, hs, hq, hw, hx, h => by
      obtain ⟨r, x', hnext, hacts, h⟩ := finish_step hs h
      have hr := rows_next hall hq (hw c List.mem_cons_self) hnext
      rw [Bool.and_eq_true, decide_eq_true_eq] at hr
      obtain ⟨q', x', hrun, hq', hx', h⟩ := finish_holds hall w (drop_succ hs) hr.2
        (fun d hd => hw d (List.mem_cons_of_mem _ hd)) (holds_runActs hr.1 hx hacts) h
      refine ⟨q', x', by simpa only [Table.run, hnext] using hrun, hq', hx', ?_⟩
      rw [List.length_cons, Nat.add_comm w.length, ← Nat.add_assoc]
      exact h

/-! ## An authority without a scheme -/

/-- Where a host may end. -/
def relativeHostEnds : List (ℕ × ℕ) := [(459, 460), (463, 467), (469, 488), (490, 507)]

/-- Behind the authority: in a path, a query or a fragment. -/
def relativeTail : List (ℕ × ℕ) := [(1, 2), (5, 8), (453, 457)]

theorem tail_stays : uriTable.rows relativeTail [(0, 255)] (fun _ r =>
    decide (UriAction.savePort ∉ r.acts ∧ UriAction.saveScheme ∉ r.acts) &&
      within relativeTail r.target) = true := by
  decide

theorem eof_holds : ∀ q < 561, within (relativeHostEnds ++ relativeTail) q = true →
    UriAction.savePort ∉ eofActs q ∧ UriAction.saveScheme ∉ eofActs q := by
  decide

theorem finish_tail (hq : within relativeTail q = true) (hx : Holds n v x)
    (h : finish s p q x = .ok (some u)) : u.port = n ∧ u.scheme = v := by
  obtain ⟨q', x', -, hq', hx', h⟩ := finish_holds tail_stays (s.drop p) (List.append_nil _).symm
    hq (fun c _ => within_bytes c) hx h
  have hend : s.drop (p + (s.drop p).length) = [] :=
    List.drop_eq_nil_of_le (by rw [List.length_drop]; omega)
  obtain ⟨x'', hacts, rfl⟩ := finish_end hend h
  have hlt : q' < 561 := by
    simp only [relativeTail, within_cons, within_nil, Bool.false_eq_true, or_false] at hq'
    omega
  have heof := eof_holds q' hlt (by
    rw [within, List.any_append, Bool.or_eq_true]
    exact Or.inr hq')
  exact holds_runActs heof hx' hacts

/-- What may follow an authority. -/
def AuthorityEnd (rest : List UInt8) : Prop := ∀ c ∈ rest.head?, c = 35 ∨ c = 47 ∨ c = 63

theorem AuthorityEnd.within {c : UInt8} {rest : List UInt8} (h : AuthorityEnd (c :: rest)) :
    within [(35, 35), (47, 47), (63, 63)] c.toNat = true := by
  rcases h c rfl with rfl | rfl | rfl <;> decide

theorem hostEnds_end : uriTable.rows relativeHostEnds [(35, 35), (47, 47), (63, 63)] (fun _ r =>
    decide (UriAction.savePort ∉ r.acts ∧ UriAction.saveScheme ∉ r.acts) &&
      within relativeTail r.target) = true := by
  decide

/-- Behind a host without a port. -/
theorem finish_host {rest : List UInt8} (hs : s.drop p = rest) (hend : AuthorityEnd rest)
    (hq : within relativeHostEnds q = true) (hx : Holds n v x)
    (h : finish s p q x = .ok (some u)) : u.port = n ∧ u.scheme = v := by
  cases rest with
  | nil =>
      obtain ⟨x', hacts, rfl⟩ := finish_end hs h
      have hlt : q < 561 := by
        simp only [relativeHostEnds, within_cons, within_nil, Bool.false_eq_true, or_false] at hq
        omega
      have heof := eof_holds q hlt (by
        rw [within, List.any_append, Bool.or_eq_true]
        exact Or.inl hq)
      exact holds_runActs heof hx hacts
  | cons c rest =>
      obtain ⟨r, x', hnext, hacts, h⟩ := finish_step hs h
      have hr := rows_next hostEnds_end hq hend.within hnext
      rw [Bool.and_eq_true, decide_eq_true_eq] at hr
      exact finish_tail hr.2 (holds_runActs hr.1 hx hacts) h

/-- Behind the `:` of a port, and behind a digit of it. -/
def relativePortActs (q : ℕ) : List UriAction :=
  if q = 461 ∨ q = 468 then [.mark, .savePort] else [.savePort]

theorem port_end : leads [(461, 462), (468, 468), (489, 489)] [(35, 35), (47, 47), (63, 63)]
    relativePortActs relativeTail = true := by
  decide

theorem eof_port : ∀ q < 561, within [(461, 462), (468, 468), (489, 489)] q = true →
    eofActs q = relativePortActs q := by
  decide

/-- Behind a port: what is saved is what the actions there save. -/
theorem finish_portEnd {rest : List UInt8} (hs : s.drop p = rest) (hend : AuthorityEnd rest)
    (hq : within [(461, 462), (468, 468), (489, 489)] q = true)
    (hacts : ∀ x', runActs (act s) p (relativePortActs q) x = .ok x' → Holds n v x')
    (h : finish s p q x = .ok (some u)) : u.port = n ∧ u.scheme = v := by
  cases rest with
  | nil =>
      obtain ⟨x', hrun, rfl⟩ := finish_end hs h
      have hlt : q < 561 := by
        simp only [within_cons, within_nil, Bool.false_eq_true, or_false] at hq
        omega
      rw [eof_port q hlt hq] at hrun
      exact hacts x' hrun
  | cons c rest =>
      obtain ⟨r, x', hnext, hrun, h⟩ := finish_step hs h
      have hr := rows_next port_end hq hend.within hnext
      rw [Bool.and_eq_true, decide_eq_true_eq] at hr
      rw [hr.1] at hrun
      exact finish_tail hr.2 (hacts x' hrun) h

theorem host_colon : uriTable.rows relativeHostEnds [(58, 58)] (fun _ r =>
    decide (UriAction.savePort ∉ r.acts ∧ UriAction.saveScheme ∉ r.acts) &&
      within [(461, 461), (468, 468)] r.target) = true := by
  decide

theorem port_digit : leads [(461, 461), (468, 468)] [(48, 57)] (fun _ => [.mark])
    [(462, 462), (489, 489)] = true := by
  decide

theorem port_digits : uriTable.stays [(462, 462), (489, 489)] [(48, 57)] = true := by
  decide

/-- Over the digits of a port. -/
theorem finish_digits : ∀ (ds : List UInt8) {rest : List UInt8} {p q : ℕ},
    s.drop p = ds ++ rest → within [(462, 462), (489, 489)] q = true →
    (∀ c ∈ ds, (digit 10 c).isSome = true) → finish s p q x = .ok (some u) →
    ∃ q', within [(462, 462), (489, 489)] q' = true ∧
      finish s (p + ds.length) q' x = .ok (some u)
  | [], _, p, q, _, hq, _, h => ⟨q, hq, h⟩
  | d :: ds, rest, p, q, hs, hq, hds, h => by
      obtain ⟨r, x', hnext, hacts, h⟩ := finish_step hs h
      have hr := rows_next port_digits hq (within_digit (hds d List.mem_cons_self)) hnext
      rw [Bool.and_eq_true, decide_eq_true_eq] at hr
      rw [hr.1] at hacts
      cases hacts
      obtain ⟨q', hq', h⟩ := finish_digits ds (drop_succ hs) hr.2
        (fun c hc => hds c (List.mem_cons_of_mem _ hc)) h
      refine ⟨q', hq', ?_⟩
      rw [List.length_cons, Nat.add_comm ds.length, ← Nat.add_assoc]
      exact h

theorem finish_portOpt {port : Option (List UInt8)} {rest : List UInt8}
    (hs : s.drop p = optText 58 port ++ rest) (hend : AuthorityEnd rest)
    (hport : ∀ ds ∈ port, ∀ c ∈ ds, (digit 10 c).isSome = true)
    (hq : within relativeHostEnds q = true) (hx : Holds 0 v x)
    (h : finish s p q x = .ok (some u)) : u.port = portValue rest port ∧ u.scheme = v := by
  cases port with
  | none => exact finish_host hs hend hq hx h
  | some ds =>
      have hs₀ : s.drop p = 58 :: (ds ++ rest) := hs
      obtain ⟨r, x₁, hnext, hacts, h⟩ := finish_step hs₀ h
      have hr := rows_next host_colon hq (by decide) hnext
      rw [Bool.and_eq_true, decide_eq_true_eq] at hr
      have hx₁ := holds_runActs hr.1 hx hacts
      have hs₁ := drop_succ hs₀
      have htarget : r.target = 461 ∨ r.target = 468 := by
        have hr₂ := hr.2
        simp only [within_cons, within_nil, Bool.false_eq_true, or_false] at hr₂
        omega
      cases ds with
      | nil =>
          refine finish_portEnd hs₁ hend (by rcases htarget with h | h <;> rw [h] <;> decide) ?_ h
          intro x' hx'
          rw [relativePortActs, if_pos htarget] at hx'
          simp only [runActs, act, if_true, Except.ok.injEq] at hx'
          exact hx' ▸ hx₁
      | cons d ds =>
          have hds := hport _ rfl
          obtain ⟨r', x₂, hnext', hacts', h⟩ := finish_step hs₁ h
          have hr' := rows_next port_digit hr.2 (within_digit (hds d List.mem_cons_self)) hnext'
          rw [Bool.and_eq_true, decide_eq_true_eq] at hr'
          rw [hr'.1] at hacts'
          obtain rfl : ⟨some (p + 1), x₁.uri⟩ = x₂ := by
            simpa only [runActs, act, Except.ok.injEq] using hacts'
          obtain ⟨q', hq', h⟩ := finish_digits ds (drop_succ hs₁) hr'.2
            (fun c hc => hds c (List.mem_cons_of_mem _ hc)) h
          have hq'' : q' = 462 ∨ q' = 489 := by
            simp only [within_cons, within_nil, Bool.false_eq_true, or_false] at hq'
            omega
          refine finish_portEnd (drop_add (drop_succ hs₁)) hend
            (by rcases hq'' with rfl | rfl <;> decide) ?_ h
          intro x' hx'
          have hne : ¬some (p + 1) = some (p + 1 + 1 + ds.length) := by
            rw [Option.some.injEq]
            omega
          rw [relativePortActs, if_neg (by omega)] at hx'
          simp only [runActs, act, if_neg hne, Except.ok.injEq] at hx'
          rw [← hx', hs₁]
          exact ⟨rfl, hx₁.2⟩

theorem sibling_ends : ∀ q < 561, within relativeStates q = true →
    within hostEnds (sibling q) = true → within relativeHostEnds q = true := by
  decide

theorem Authority.within_bytes (a : Authority) :
    ∀ c ∈ userText a.userinfo ++ a.host, within authorityBytes c.toNat = true := by
  have huser : ∀ c : UInt8, within userBytes c.toNat = true ∨ c = 64 →
      within authorityBytes c.toNat = true := by
    decide
  intro c hc
  rcases List.mem_append.mp hc with hc | hc
  · refine huser c ?_
    have hderives := a.userinfo_derives
    cases hinfo : a.userinfo with
    | none =>
        rw [hinfo] at hc
        cases hc
    | some w =>
        rw [hinfo] at hc
        rcases List.mem_append.mp hc with hc | hc
        · exact Or.inl (userBytes_of_derives (hderives w hinfo) c hc)
        · exact Or.inr (List.mem_singleton.mp hc)
  · have hclosed : closed (rule .source) hostSymbols authorityBytes = true := by decide
    exact a.host_derives.within_of_closed hclosed (by decide) c hc

theorem derives_none {n : Symbol} :
    ∀ w ∈ (none : Option (List UInt8)), Derives (rule .source) [n] w := by
  simp

/-- The same authority behind a scheme and in front of a path. -/
def Authority.parts (a : Authority) {v path : List UInt8}
    (hv : Derives (rule .source) [.scheme] v)
    (hpath : Derives (rule .source) [.pathAbempty] path) : Parts .source where
  scheme := v
  userinfo := a.userinfo
  host := a.host
  port := a.port
  path := path
  query := none
  fragment := none
  scheme_derives := hv
  userinfo_derives := a.userinfo_derives
  host_derives := a.host_derives
  port_derives := a.port_derives
  path_derives := hpath
  query_derives := derives_none
  fragment_derives := derives_none

theorem derives_a : Derives (rule .source) [.scheme] (bytes "a") :=
  derives_of_recognize 400 (by decide)

theorem derives_noPath : Derives (rule .source) [.pathAbempty] [] :=
  .oneOf rfl List.mem_cons_self .nil

/-- A host behind a scheme ends in one of `hostEnds`. -/
theorem Authority.run_host (a : Authority) :
    ∃ q, uriTable.run 511 (userText a.userinfo ++ a.host) = some q ∧
      within hostEnds q = true := by
  obtain ⟨q, hrun, hfinal⟩ := run_authority (derives_authority.mpr
    ⟨a.userinfo, a.host, none, rfl, a.userinfo_derives, a.host_derives, by simp⟩)
    derives_noPath
  simp only [optText, List.append_nil] at hrun
  -- `go_user` and `go_host` over the host alone tell where it ends.
  have hs : (userText a.userinfo ++ a.host).drop 0 = userText a.userinfo ++ a.host := rfl
  obtain ⟨q₀, host, hq₀, hrun₀, -⟩ := (a.parts derives_a derives_noPath).go_user (u := new) hs hrun
  have hs' : (userText a.userinfo ++ a.host).drop (userText a.userinfo).length =
      a.host ++ [] := by
    rw [List.drop_left, List.append_nil]
  exact ⟨q, hrun, (go_host (u := new) hs' hq₀ (hostText_of_derives a.host_derives) hrun₀
    hfinal).1⟩

/-- **An authority without a scheme.** The port is the one of its digits. -/
theorem Authority.finish_text (a : Authority) {rest : List UInt8}
    (hs : s.drop p = a.text ++ rest) (hend : AuthorityEnd rest) (hx : Holds 0 v x)
    (h : finish s p 459 x = .ok (some u)) : u.port = portValue rest a.port ∧ u.scheme = v := by
  have hs₀ : s.drop p = (userText a.userinfo ++ a.host) ++ (optText 58 a.port ++ rest) := by
    rw [hs, Authority.text, List.append_assoc]
  obtain ⟨q, x', hrun, hq, hx', h⟩ := finish_holds relativeStates_stay _ hs₀ (by decide)
    a.within_bytes hx h
  obtain ⟨hq, hrun'⟩ := run_sibling _ (by decide) a.within_bytes hrun
  obtain ⟨q', hrun₁, hends⟩ := a.run_host
  have hsame : q' = sibling q := Option.some.inj (hrun₁.symm.trans hrun')
  have hlt : q < 561 := by
    simp only [relativeStates, within_cons, within_nil, Bool.false_eq_true, or_false] at hq
    omega
  exact finish_portOpt (drop_add hs₀) hend
    (fun ds hds => derives_port.mp (a.port_derives ds hds))
    (sibling_ends q hlt hq (hsame ▸ hends)) hx' h

theorem first_slash : leads [(451, 451)] [(47, 47)] (fun _ => []) [(458, 458)] = true := by
  decide

theorem second_slash : leads [(458, 458)] [(47, 47)] (fun _ => []) [(459, 459)] = true := by
  decide

/-- A run without a scheme from its start. -/
theorem finish_slashes {a : Authority} {rest : List UInt8}
    (hs : s = 47 :: 47 :: (a.text ++ rest)) (hend : AuthorityEnd rest)
    (h : finish s 0 451 ⟨none, new⟩ = .ok (some u)) :
    u.port = portValue rest a.port ∧ u.scheme = [] := by
  have hs₀ : s.drop 0 = 47 :: 47 :: (a.text ++ rest) := hs
  obtain ⟨r₁, x₁, hnext₁, hacts₁, h⟩ := finish_step hs₀ h
  have hr₁ := rows_next first_slash (within_self 451) (by decide) hnext₁
  rw [Bool.and_eq_true, decide_eq_true_eq, within_iff_eq] at hr₁
  rw [hr₁.1] at hacts₁
  cases hacts₁
  rw [hr₁.2] at h
  obtain ⟨r₂, x₂, hnext₂, hacts₂, h⟩ := finish_step (drop_succ hs₀) h
  have hr₂ := rows_next second_slash (within_self 458) (by decide) hnext₂
  rw [Bool.and_eq_true, decide_eq_true_eq, within_iff_eq] at hr₂
  rw [hr₂.1] at hacts₂
  cases hacts₂
  rw [hr₂.2] at h
  exact a.finish_text (drop_succ (drop_succ hs₀)) hend ⟨rfl, rfl⟩ h

end Steps

/-! ## The port of any reference -/

namespace Reference

variable (r : Reference)

/-- The digits of the port, if there is one. -/
def port : Option (List UInt8) := r.authority.bind Authority.port

/-- What follows the authority. -/
def afterAuthority : List UInt8 := r.path ++ (optText 63 r.query ++ optText 35 r.fragment)

theorem text_eq : r.text =
    schemeText r.scheme ++ (authorityText r.authority ++ r.afterAuthority) := by
  simp [text, front, afterAuthority]

theorem path_of_authority {a : Authority} (hauth : r.authority = some a) :
    Derives (rule .source) [.pathAbempty] r.path := by
  have hpath := r.path_derives
  rw [hauth] at hpath
  exact hpath

theorem authorityEnd_after {a : Authority} (hauth : r.authority = some a) :
    AuthorityEnd r.afterAuthority := by
  intro c hc
  unfold afterAuthority at hc
  rcases head_of_path (r.path_of_authority hauth) with hnil | hhead
  · rw [hnil] at hc
    cases hquery : r.query with
    | some w =>
        rw [hquery] at hc
        exact Or.inr (Or.inr (Option.some.inj hc).symm)
    | none =>
        rw [hquery] at hc
        cases hfragment : r.fragment with
        | some w =>
            rw [hfragment] at hc
            exact Or.inl (Option.some.inj hc).symm
        | none =>
            rw [hfragment] at hc
            cases hc
  · rw [List.head?_append, hhead] at hc
    exact Or.inr (Or.inl (Option.some.inj hc).symm)

/-- The parts of a reference with a scheme and an authority. -/
def parts {a : Authority} {v : List UInt8} (hauth : r.authority = some a)
    (hscheme : r.scheme = some v) : Parts .source :=
  { a.parts (r.scheme_derives v hscheme) (r.path_of_authority hauth) with
    query := r.query
    fragment := r.fragment
    query_derives := r.query_derives
    fragment_derives := r.fragment_derives }

theorem parts_text {a : Authority} {v : List UInt8} (hauth : r.authority = some a)
    (hscheme : r.scheme = some v) : (r.parts hauth hscheme).text = r.text := by
  simp [parts, Authority.parts, Parts.text, Parts.front, Parts.authority, Reference.text,
    front, hauth, hscheme, schemeText, authorityText, Authority.text]

/-- **What is saved.** The port is the value of the digits, and the scheme is kept. -/
theorem port_of_create {u : Uri} (h : create r.text = .ok (some u)) :
    u.port = portValue [] r.port ∧ u.scheme = r.scheme.getD [] := by
  cases hauth : r.authority with
  | none =>
      rw [r.create_plain hauth] at h
      cases h
      refine ⟨?_, rfl⟩
      rw [port, hauth]
      rfl
  | some a =>
      have hport : r.port = a.port := by rw [port, hauth, Option.bind_some]
      rw [hport]
      cases hscheme : r.scheme with
      | some v =>
          rw [← r.parts_text hauth hscheme] at h
          rw [((r.parts hauth hscheme).uri_of_create h).2]
          exact ⟨rfl, rfl⟩
      | none =>
          have htext : r.text = 47 :: 47 :: (a.text ++ r.afterAuthority) := by
            rw [text_eq, hauth, hscheme]
            rfl
          rw [create_eq_finish, htext] at h
          have hend := r.authorityEnd_after hauth
          obtain ⟨hvalue, hempty⟩ := finish_slashes rfl hend h
          refine ⟨?_, hempty⟩
          rw [hvalue]
          refine (a.parts derives_a derives_noPath).portValue_eq ?_
          intro c hc
          rcases hend c hc with rfl | rfl | rfl <;> decide

/-! ## What `getPort` gives -/

/-- The number that the digits of the port stand for. -/
def portNumber : ℕ := (r.port.map fun ds => digits 10 ds 0).getD 0

/-- The port of a reference: the number of its digits, or the default of its scheme. -/
def expectedPort : ℤ :=
  if r.portNumber ≠ 0 then r.portNumber
  else if r.scheme = some (bytes "http") ∨ r.scheme = some (bytes "ws") then 80
  else if r.scheme = some (bytes "https") ∨ r.scheme = some (bytes "wss") then 443
  else 0

/-- `getPort` is a port number, the one of the reference, and an address gets it from
`createAddress`. -/
structure PortKept (u : Uri) : Prop where
  range : 0 ≤ getPort u ∧ getPort u ≤ 65535
  expected : getPort u = r.expectedPort
  address : ∀ host (a : SockaddrIn), (IPv4Address.getPort host (IPv4Address.setPort host a
    (UInt16.ofInt (getPort u))) : ℤ) = getPort u

theorem portValue_of_small (h : r.portNumber ≤ 65535) : portValue [] r.port = r.portNumber := by
  unfold portNumber at h ⊢
  cases hport : r.port with
  | none => rfl
  | some ds =>
      rw [hport, Option.map_some, Option.getD_some] at h
      cases ds with
      | nil => rfl
      | cons d ds =>
          have hds : ∀ c ∈ d :: ds, (digit 10 c).isSome = true := by
            obtain ⟨a, -, ha⟩ := Option.bind_eq_some_iff.mp hport
            exact derives_port.mp (a.port_derives _ ha)
          rw [portValue, atoi_digits (List.cons_ne_nil d ds) hds (by simp),
            min_eq_left (by unfold longMax; omega), toInt32_of_le (by omega) (by omega)]
          rfl

theorem getPort_eq {u : Uri} (hport : u.port = r.portNumber)
    (hscheme : u.scheme = r.scheme.getD []) : getPort u = r.expectedPort := by
  have hname : ∀ name : List UInt8, name ≠ [] → (u.scheme = name ↔ r.scheme = some name) := by
    intro name hne
    rw [hscheme]
    cases r.scheme with
    | none => simp [hne.symm]
    | some v => simp
  have hzero : u.port ≠ 0 ↔ r.portNumber ≠ 0 := by
    rw [hport]
    simp
  unfold getPort expectedPort
  simp only [hname (bytes "http") (by decide), hname (bytes "ws") (by decide),
    hname (bytes "https") (by decide), hname (bytes "wss") (by decide)]
  by_cases hz : r.portNumber = 0
  · rw [if_neg (hzero.not.mpr (not_not.mpr hz)), if_neg (not_not.mpr hz), hport, hz]
    rfl
  · rw [if_pos (hzero.mpr hz), if_pos hz, hport]

theorem expectedPort_small (h : r.portNumber ≤ 65535) :
    0 ≤ r.expectedPort ∧ r.expectedPort ≤ 65535 := by
  unfold expectedPort
  split_ifs <;> omega

end Reference

/-- **The port of a URI.** Every string that `Create` returns a URI for is a reference, and
its port is kept if and only if its digits stand for a number up to 65535. -/
theorem portKept_iff {s : List UInt8} {u : Uri} (h : create s = .ok (some u)) :
    (∃ r : Reference, r.text = s) ∧
      ∀ r : Reference, r.text = s → (r.PortKept u ↔ r.portNumber ≤ 65535) := by
  constructor
  · obtain ⟨q, hrun, hfinal⟩ := run_of_create h
    refine derives_reference.mp ((uriTable_accepts s).mp ?_)
    rw [Table.accepts, hrun]
    exact hfinal
  · rintro r rfl
    obtain ⟨hport, hscheme⟩ := r.port_of_create h
    constructor
    · intro hkept
      by_contra hlarge
      have hexpected : r.expectedPort = r.portNumber := if_pos (by omega)
      have hrange := hkept.range
      rw [hkept.expected, hexpected] at hrange
      omega
    · intro hsmall
      have heq := r.getPort_eq (hport.trans (r.portValue_of_small hsmall)) hscheme
      have hrange := r.expectedPort_small hsmall
      rw [← heq] at hrange
      refine ⟨hrange, heq, ?_⟩
      intro host a
      rw [IPv4Address.getPort_setPort, UInt16.ofInt, UInt16.toNat_ofNat']
      omega

/-- `http://h:8080/`. -/
theorem portKept_iff_8080 :
    ∃ u, create (bytes "http://h:8080/") = .ok (some u) ∧ getPort u = 8080 ∧
      (∃ r : Reference, r.text = bytes "http://h:8080/") ∧
      ∀ r : Reference, r.text = bytes "http://h:8080/" →
        (r.PortKept u ↔ r.portNumber ≤ 65535) :=
  have hcreate : create (bytes "http://h:8080/") =
      .ok (some ⟨bytes "http", [], bytes "h", bytes "/", [], [], 8080⟩) := by decide
  ⟨_, hcreate, by decide, portKept_iff hcreate⟩

theorem derives_port_70000 :
    ∀ w ∈ some (bytes "70000"), Derives (rule .source) [.port] w := by
  rintro w ⟨⟩
  exact derives_of_recognize 400 (by decide)

theorem derives_scheme_http :
    ∀ v ∈ some (bytes "http"), Derives (rule .source) [.scheme] v := by
  rintro v ⟨⟩
  exact derives_of_recognize 400 (by decide)

theorem derives_host_h : Derives (rule .source) [.host] (bytes "h") :=
  derives_of_recognize 400 (by decide)

theorem derives_path_slash : Derives (rule .source) [.pathAbempty] (bytes "/") :=
  derives_of_recognize 400 (by decide)

/-- The reference `http://h:70000/`. -/
def largePort : Reference where
  scheme := some (bytes "http")
  authority := some ⟨none, bytes "h", some (bytes "70000"), derives_none, derives_host_h,
    derives_port_70000⟩
  path := bytes "/"
  query := none
  fragment := none
  scheme_derives := derives_scheme_http
  path_derives := derives_path_slash
  query_derives := derives_none
  fragment_derives := derives_none

/-- `getPort` is 70000, and the address gets the port 4464. -/
theorem getPort_too_large : largePort.text = bytes "http://h:70000/" ∧
    ∃ u, create largePort.text = .ok (some u) ∧ getPort u = 70000 ∧
      IPv4Address.getPort .little (IPv4Address.setPort .little ⟨2, 0, 0⟩
        (UInt16.ofInt (getPort u))) = 4464 ∧ ¬largePort.PortKept u := by
  refine ⟨by decide, ⟨bytes "http", [], bytes "h", bytes "/", [], [], 70000⟩, by decide,
    by decide, by decide, ?_⟩
  intro hkept
  exact absurd hkept.range.2 (by decide)

end Uri

end Skt
