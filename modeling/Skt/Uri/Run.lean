import Skt.Uri.Layout

/-!
# The run over a URI with an authority

The string `scheme "://" [userinfo "@"] host [":" port] path ["?" query]
["#" fragment]` is followed part by part. Up to the `@` the automaton cannot
know whether it reads a user or a host and a port: it runs the actions of both,
and a digit behind the first `:` moves `mark`.
-/

namespace Skt

set_option maxRecDepth 4000

namespace Uri

open Lib Lib.CString Lib.Ragel

variable {s : List UInt8}

/-! ## Steps -/

/-- The loop from position `p` on. -/
def go (s : List UInt8) (p q : ℕ) (x : Scan) : Except Fault (ℕ × ℕ × Scan) :=
  execFrom uriTable false (fun _ => false) (act s) s p q x

theorem go_end {p q : ℕ} {x : Scan} (hs : s.drop p = []) : go s p q x = .ok (p, q, x) := by
  rw [go, execFrom, hs, exec]

theorem go_stays {R on : List (ℕ × ℕ)} (hstays : uriTable.stays R on = true)
    {w v rest : List UInt8} {p q q' : ℕ} (x : Scan) (hs : s.drop p = w ++ rest)
    (hq : within R q = true) (hw : ∀ c ∈ w, within on c.toNat = true)
    (hrun : uriTable.run q (w ++ v) = some q') :
    ∃ q₁, within R q₁ = true ∧ uriTable.run q₁ v = some q' ∧
      go s p q x = go s (p + w.length) q₁ x := by
  rw [Table.run_append, Option.bind_eq_some_iff] at hrun
  obtain ⟨q₁, hrun₁, hrun⟩ := hrun
  obtain ⟨hgo, hq₁⟩ := execFrom_stays hstays w x hs hq hw hrun₁
  exact ⟨q₁, hq₁, hrun, hgo⟩

theorem leads_next {R on T : List (ℕ × ℕ)} {acts : ℕ → List UriAction}
    (hall : leads R on acts T = true) {q q' : ℕ} {c : UInt8} {v : List UInt8}
    (hq : within R q = true) (hc : within on c.toNat = true)
    (hrun : uriTable.run q (c :: v) = some q') :
    ∃ r, uriTable.next false q c = some r ∧ r.acts = acts q ∧ within T r.target = true ∧
      uriTable.run r.target v = some q' := by
  simp only [Table.run] at hrun
  cases hnext : uriTable.next false q c with
  | none => simp [hnext] at hrun
  | some r =>
      simp only [hnext] at hrun
      have hr := rows_next hall hq hc hnext
      rw [Bool.and_eq_true, decide_eq_true_eq] at hr
      exact ⟨r, rfl, hr.1, hr.2, hrun⟩

theorem go_step {R on T : List (ℕ × ℕ)} {acts : ℕ → List UriAction}
    (hall : leads R on acts T = true) {p q q' : ℕ} {c : UInt8} {v rest : List UInt8}
    {x x' : Scan} (hs : s.drop p = c :: rest) (hq : within R q = true)
    (hc : within on c.toNat = true) (hrun : uriTable.run q (c :: v) = some q')
    (hacts : runActs (act s) p (acts q) x = .ok x') :
    ∃ q₁, within T q₁ = true ∧ uriTable.run q₁ v = some q' ∧
      go s p q x = go s (p + 1) q₁ x' := by
  obtain ⟨r, hnext, hr, hT, hrun'⟩ := leads_next hall hq hc hrun
  refine ⟨r.target, hT, hrun', execFrom_step hs hnext (by rw [hr]; exact hacts) ?_⟩
  exact List.any_eq_false.mpr fun _ _ => by simp

theorem within_iff_eq {a q : ℕ} : within [(a, a)] q = true ↔ q = a := by
  simp only [within_cons, within_nil, Bool.false_eq_true, or_false]
  omega

theorem within_self (a : ℕ) : within [(a, a)] a = true := within_iff_eq.mpr rfl

/-- The step to a single state. -/
theorem go_step_eq {R on : List (ℕ × ℕ)} {q₁ : ℕ} {acts : ℕ → List UriAction}
    (hall : leads R on acts [(q₁, q₁)] = true) {p q q' : ℕ} {c : UInt8}
    {v rest : List UInt8} {x x' : Scan} (hs : s.drop p = c :: rest)
    (hq : within R q = true) (hc : within on c.toNat = true)
    (hrun : uriTable.run q (c :: v) = some q')
    (hacts : runActs (act s) p (acts q) x = .ok x') :
    uriTable.run q₁ v = some q' ∧ go s p q x = go s (p + 1) q₁ x' := by
  obtain ⟨q₂, hq₂, hrun, hgo⟩ := go_step hall hs hq hc hrun hacts
  obtain rfl := within_iff_eq.mp hq₂
  exact ⟨hrun, hgo⟩

/-! ## Actions -/

theorem marked_drop {m : ℕ} {w rest : List UInt8} (h : s.drop m = w ++ rest) :
    marked s (some m) (m + w.length) = .ok w := by
  rw [marked, if_neg (by omega), Nat.add_sub_cancel_left, h, List.take_left]

theorem marked_self (p : ℕ) : marked s (some p) p = .ok [] := by
  rw [marked, if_neg (lt_irrefl p), Nat.sub_self, List.take_zero]

theorem runActs_saveUserinfo {m : ℕ} {w rest : List UInt8} {u : Uri}
    (hs : s.drop m = w ++ rest) :
    runActs (act s) (m + w.length) [.saveUserinfo] ⟨some m, u⟩ =
      .ok ⟨none, { u with userinfo := w }⟩ := by
  simp [runActs, act, marked_drop hs, Except.map]

theorem runActs_saveHost {m : ℕ} {w rest : List UInt8} {u : Uri} (hs : s.drop m = w ++ rest) :
    runActs (act s) (m + w.length) [.saveHost] ⟨some m, u⟩ =
      .ok ⟨some m, { u with host := w }⟩ := by
  simp [runActs, act, marked_drop hs, Except.map]

/-! ## The scheme -/

/-- A scheme up to and with its `:`. -/
theorem go_schemeColon {c : UInt8} {w rest v : List UInt8} {q : ℕ} {u : Uri}
    (hs : s = c :: w ++ 58 :: rest) (hc : within [(65, 90), (97, 122)] c.toNat = true)
    (hw : ∀ d ∈ w, within schemeBytes d.toNat = true)
    (hrun : uriTable.run 451 (c :: w ++ 58 :: v) = some q) :
    uriTable.run 509 v = some q ∧
      go s 0 451 ⟨none, u⟩ =
        go s ((c :: w).length + 1) 509 ⟨none, { u with scheme := c :: w }⟩ := by
  have h₀ : s.drop 0 = c :: (w ++ 58 :: rest) := hs
  obtain ⟨q₁, hq₁, hrun, hgo₁⟩ := go_step (x := ⟨none, u⟩) layout.scheme_first h₀
    (within_self 451) hc hrun rfl
  have h₁ := drop_succ h₀
  obtain ⟨q₂, hq₂, hrun, hgo₂⟩ := go_stays layout.scheme_stays ⟨some 0, u⟩ h₁ hq₁ hw hrun
  have hmarked : marked s (some 0) (0 + 1 + w.length) = .ok (c :: w) := by
    rw [Nat.add_assoc, Nat.add_comm 1, ← List.length_cons (a := c)]
    exact marked_drop hs
  have hacts : runActs (act s) (0 + 1 + w.length) [.saveScheme] ⟨some 0, u⟩ =
      .ok ⟨none, { u with scheme := c :: w }⟩ := by
    simp only [runActs, act, hmarked, Except.map]
  obtain ⟨hrun, hgo₃⟩ := go_step_eq layout.scheme_colon (drop_add h₁) hq₂ (by decide) hrun hacts
  have hlen : (c :: w).length + 1 = 0 + 1 + w.length + 1 := by
    rw [List.length_cons]
    omega
  refine ⟨hrun, ?_⟩
  rw [hgo₁, hgo₂, hgo₃, hlen]

theorem go_scheme {c : UInt8} {w rest v : List UInt8} {q : ℕ} {u : Uri}
    (hs : s = c :: w ++ 58 :: 47 :: 47 :: rest)
    (hc : within [(65, 90), (97, 122)] c.toNat = true)
    (hw : ∀ d ∈ w, within schemeBytes d.toNat = true)
    (hrun : uriTable.run 451 (c :: w ++ 58 :: 47 :: 47 :: v) = some q) :
    uriTable.run 511 v = some q ∧
      go s 0 451 ⟨none, u⟩ =
        go s ((c :: w).length + 3) 511 ⟨none, { u with scheme := c :: w }⟩ := by
  obtain ⟨hrun, hgo₁⟩ := go_schemeColon (u := u) hs hc hw hrun
  have h₁ : s.drop ((c :: w).length + 1) = 47 :: 47 :: rest := by
    rw [hs]
    simp
  obtain ⟨hrun, hgo₂⟩ := go_step_eq (x := ⟨none, { u with scheme := c :: w }⟩)
    layout.scheme_slash h₁ (by decide) (by decide) hrun rfl
  obtain ⟨hrun, hgo₃⟩ := go_step_eq (x := ⟨none, { u with scheme := c :: w }⟩)
    layout.scheme_slashes (drop_succ h₁) (by decide) (by decide) hrun rfl
  exact ⟨hrun, hgo₁.trans (hgo₂.trans hgo₃)⟩

/-! ## The user -/

/-- What `save_userinfo` makes of a `userinfo`: a digit behind the first `:` is
taken for the start of a port, and `mark` is set to it. -/
def savedUserinfo (w : List UInt8) : List UInt8 :=
  match w.dropWhile (· ≠ 58) with
  | _ :: d :: b => if (digit 10 d).isSome then d :: b else w
  | _ => w

theorem savedUserinfo_append {a : List UInt8} (ha : ∀ c ∈ a, c ≠ 58) (b : List UInt8) :
    savedUserinfo (a ++ 58 :: b) =
      match b with
      | d :: b' => if (digit 10 d).isSome then d :: b' else a ++ 58 :: b
      | [] => a ++ 58 :: b := by
  have hdrop : (a ++ 58 :: b).dropWhile (· ≠ 58) = 58 :: b := by
    rw [List.dropWhile_append_of_pos (by simpa using ha), List.dropWhile_cons_of_neg (by simp)]
  rw [savedUserinfo, hdrop]
  cases b <;> rfl

theorem savedUserinfo_of_forall {w : List UInt8} (hw : ∀ c ∈ w, c ≠ 58) :
    savedUserinfo w = w := by
  have hdrop : w.dropWhile (· ≠ 58) = [] := List.dropWhile_eq_nil_iff.mpr (by simpa using hw)
  rw [savedUserinfo, hdrop]

theorem nameBytes_of_user : ∀ c : UInt8, within userBytes c.toNat = true → c ≠ 58 →
    within nameBytes c.toNat = true := by
  decide

theorem user_digit_or : ∀ c : UInt8, within userBytes c.toNat = true →
    (digit 10 c).isSome = true ∨
      within [(33, 33), (36, 46), (58, 59), (61, 61), (65, 126)] c.toNat = true := by
  decide

theorem within_digit {c : UInt8} (h : (digit 10 c).isSome = true) :
    within [(48, 57)] c.toNat = true := by
  simpa [within] using (isSome_digit_iff c).mp h

/-- A `userinfo` in front of its first `:` or of the `@`. -/
theorem go_name {a rest v : List UInt8} {p q : ℕ} {u : Uri} (hs : s.drop p = a ++ rest)
    (hne : a ≠ []) (ha : ∀ c ∈ a, within nameBytes c.toNat = true)
    (hrun : uriTable.run 511 (a ++ v) = some q) :
    ∃ q₁, within nameStates q₁ = true ∧ uriTable.run q₁ v = some q ∧
      go s p 511 ⟨none, u⟩ = go s (p + a.length) q₁ ⟨some p, u⟩ := by
  obtain ⟨c, a, rfl⟩ := List.exists_cons_of_ne_nil hne
  obtain ⟨q₁, hq₁, hrun, hgo₁⟩ := go_step (x := ⟨none, u⟩) layout.name_first hs
    (within_self 511) (ha c List.mem_cons_self) hrun rfl
  obtain ⟨q₂, hq₂, hrun, hgo₂⟩ := go_stays layout.name_stays ⟨some p, u⟩ (drop_succ hs) hq₁
    (fun d hd => ha d (List.mem_cons_of_mem _ hd)) hrun
  refine ⟨q₂, hq₂, hrun, ?_⟩
  rw [hgo₁, List.length_cons, Nat.add_comm a.length, ← Nat.add_assoc]
  exact hgo₂

/-- A `userinfo` up to and with its first `:`: the host seems to end there. -/
theorem go_colon {a rest v : List UInt8} {p q : ℕ} {u : Uri}
    (hs : s.drop p = a ++ 58 :: rest) (ha : ∀ c ∈ a, within nameBytes c.toNat = true)
    (hrun : uriTable.run 511 (a ++ 58 :: v) = some q) :
    uriTable.run 521 v = some q ∧
      go s p 511 ⟨none, u⟩ = go s (p + a.length + 1) 521 ⟨some p, { u with host := a }⟩ := by
  by_cases hne : a = []
  · subst hne
    have hacts : runActs (act s) p [.mark, .saveHost] ⟨none, u⟩ =
        .ok ⟨some p, { u with host := [] }⟩ := by
      simp [runActs, act, marked_self, Except.map]
    exact go_step_eq layout.empty_colon hs (within_self 511) (by decide) hrun hacts
  · obtain ⟨q₁, hq₁, hrun, hgo₁⟩ := go_name (u := u) hs hne ha hrun
    obtain ⟨hrun, hgo₂⟩ := go_step_eq layout.name_colon (drop_add hs) hq₁ (by decide) hrun
      (runActs_saveHost hs)
    exact ⟨hrun, hgo₁.trans hgo₂⟩

/-- The rest of a `userinfo` with a `:`, up to and with the `@`. The `mark` at the
`@` is the one set at position `m`. -/
theorem go_at {w b rest v : List UInt8} {m q₀ q : ℕ} {u : Uri}
    (hs : s.drop m = w ++ b ++ 64 :: rest) (hq₀ : within ((521, 521) :: userStates) q₀ = true)
    (hb : ∀ c ∈ b, within userBytes c.toNat = true) (hne : b ≠ [] → q₀ ≠ 521)
    (hrun : uriTable.run q₀ (b ++ 64 :: v) = some q) :
    uriTable.run 522 v = some q ∧
      go s (m + w.length) q₀ ⟨some m, u⟩ =
        go s (m + (w ++ b).length + 1) 522 ⟨none, { u with userinfo := w ++ b }⟩ := by
  have hb₀ : s.drop (m + w.length) = b ++ 64 :: rest := by
    rw [List.append_assoc] at hs
    exact drop_add hs
  have hlen : m + (w ++ b).length = m + w.length + b.length := by
    rw [List.length_append, Nat.add_assoc]
  by_cases hbn : b = []
  · subst hbn
    rw [List.append_nil] at hs ⊢
    exact go_step_eq layout.user_at hb₀ hq₀ (by decide) hrun (runActs_saveUserinfo hs)
  · have hq₀' : within userStates q₀ = true := by
      rcases within_cons.mp hq₀ with heq | hq₀
      · exact absurd (le_antisymm heq.2 heq.1) (hne hbn)
      · exact hq₀
    obtain ⟨q₁, hq₁, hrun, hgo₁⟩ := go_stays layout.user_stays ⟨some m, u⟩ hb₀ hq₀' hb hrun
    rw [← hlen] at hgo₁
    obtain ⟨hrun, hgo₂⟩ := go_step_eq layout.user_at (drop_add hs)
      (within_cons.mpr (Or.inr hq₁)) (by decide) hrun (runActs_saveUserinfo hs)
    exact ⟨hrun, hgo₁.trans hgo₂⟩

theorem go_userinfo {w rest v : List UInt8} {p q : ℕ} {u : Uri}
    (hs : s.drop p = w ++ 64 :: rest) (hw : ∀ c ∈ w, within userBytes c.toNat = true)
    (hrun : uriTable.run 511 (w ++ 64 :: v) = some q) :
    uriTable.run 522 v = some q ∧ ∃ host,
      go s p 511 ⟨none, u⟩ = go s (p + w.length + 1) 522
        ⟨none, { u with userinfo := savedUserinfo w, host := host }⟩ := by
  by_cases hcolon : (58 : UInt8) ∈ w
  · obtain ⟨a, b, rfl, ha⟩ := List.eq_append_cons_of_mem hcolon
    have ha' : ∀ c ∈ a, c ≠ 58 := fun c hc heq => ha (heq ▸ hc)
    have hna : ∀ c ∈ a, within nameBytes c.toNat = true := fun c hc =>
      nameBytes_of_user c (hw c (List.mem_append_left _ hc)) (ha' c hc)
    have hb : ∀ c ∈ b, within userBytes c.toNat = true := fun c hc =>
      hw c (List.mem_append_right _ (List.mem_cons_of_mem _ hc))
    rw [List.append_assoc, List.cons_append] at hs hrun
    obtain ⟨hrun, hgo₁⟩ := go_colon (u := u) hs hna hrun
    have hlen : p + (a ++ 58 :: b).length = p + a.length + 1 + b.length := by
      rw [List.length_append, List.length_cons]
      omega
    rw [savedUserinfo_append ha']
    cases b with
    | nil =>
        have hs' : s.drop p = (a ++ [58]) ++ [] ++ 64 :: rest := by simpa using hs
        have h521 : within ((521, 521) :: userStates) 521 = true := by decide
        obtain ⟨hrun, hgo₂⟩ := go_at (u := { u with host := a }) hs' h521 (by simp) (by simp)
          hrun
        refine ⟨hrun, a, ?_⟩
        rw [hgo₁]
        simpa [Nat.add_assoc] using hgo₂
    | cons d b =>
        have hd₀ : s.drop (p + a.length + 1) = d :: (b ++ 64 :: rest) :=
          drop_succ (drop_add hs)
        have hb' : ∀ c ∈ b, within userBytes c.toNat = true := fun c hc =>
          hb c (List.mem_cons_of_mem _ hc)
        by_cases hd : (digit 10 d).isSome = true
        · obtain ⟨hrun, hgo₂⟩ := go_step_eq (x := ⟨some p, { u with host := a }⟩)
            layout.user_digit hd₀ (within_self 521) (within_digit hd) hrun rfl
          obtain ⟨hrun, hgo₃⟩ := go_at (w := [d]) (u := { u with host := a }) hd₀
            (by decide) hb' (fun _ => by decide) hrun
          refine ⟨hrun, a, ?_⟩
          rw [hlen]
          simp only [if_pos hd]
          exact hgo₁.trans (hgo₂.trans hgo₃)
        · obtain ⟨q₂, hq₂, hrun, hgo₂⟩ := go_step (x := ⟨some p, { u with host := a }⟩)
            layout.user_other hd₀ (within_self 521)
            ((user_digit_or d (hb d List.mem_cons_self)).resolve_left hd) hrun rfl
          have hq₂' : within ((521, 521) :: userStates) q₂ = true ∧ q₂ ≠ 521 := by
            have hq : q₂ = 255 ∨ q₂ = 256 := by
              simp only [within_cons, within_nil, Bool.false_eq_true, or_false] at hq₂
              omega
            rcases hq with rfl | rfl <;> decide
          have hs' : s.drop p = (a ++ [58, d]) ++ b ++ 64 :: rest := by simpa using hs
          obtain ⟨hrun, hgo₃⟩ := go_at (u := { u with host := a }) hs' hq₂'.1 hb'
            (fun _ => hq₂'.2) hrun
          refine ⟨hrun, a, ?_⟩
          rw [hgo₁, hgo₂]
          simpa [Nat.add_assoc, hd] using hgo₃
  · have hne : ∀ c ∈ w, c ≠ 58 := fun c hc heq => hcolon (heq ▸ hc)
    have hname : ∀ c ∈ w, within nameBytes c.toNat = true := fun c hc =>
      nameBytes_of_user c (hw c hc) (hne c hc)
    rw [savedUserinfo_of_forall hne]
    by_cases hnil : w = []
    · subst hnil
      have hacts : runActs (act s) p [.mark, .saveUserinfo] ⟨none, u⟩ =
          .ok ⟨none, { u with userinfo := [] }⟩ := by
        simp [runActs, act, marked_self, Except.map]
      obtain ⟨hrun, hgo⟩ := go_step_eq layout.empty_at hs (within_self 511) (by decide)
        hrun hacts
      exact ⟨hrun, u.host, hgo⟩
    · obtain ⟨q₁, hq₁, hrun, hgo₁⟩ := go_name (u := u) hs hnil hname hrun
      obtain ⟨hrun, hgo₂⟩ := go_step_eq layout.name_at (drop_add hs) hq₁ (by decide) hrun
        (runActs_saveUserinfo hs)
      exact ⟨hrun, u.host, hgo₁.trans hgo₂⟩

/-! ## The host -/

/-- What a host is read as: bytes of a name or a dotted quad, or an IP
literal. -/
def HostText (w : List UInt8) : Prop :=
  (∀ c ∈ w, within hostBytes c.toNat = true) ∨
    ∃ v, w = 91 :: v ++ [93] ∧ ∀ c ∈ v, within literalBytes c.toNat = true

theorem host_not_start : ∀ q, within [(512, 512), (516, 520), (523, 541), (543, 560)] q →
    within hostEnds q = true ∧ slashActs q = [.saveHost, .mark] ∧ colonActs q = [.saveHost] := by
  intro q hq
  simp only [within_cons, within_nil, Bool.false_eq_true, or_false] at hq
  refine ⟨?_, ?_, ?_⟩
  · simp only [hostEnds, within_cons, within_nil, Bool.false_eq_true, or_false]
    omega
  · rw [slashActs, if_neg (by omega), if_neg (by omega), if_neg (by omega)]
  · rw [colonActs, if_neg (by omega)]

/-- A non-empty host: the run is behind it, with `mark` in front of it. -/
theorem go_hostBytes {w rest : List UInt8} {p q₀ q : ℕ} {u : Uri}
    (hs : s.drop p = w ++ rest) (hq₀ : within [(511, 511), (522, 522)] q₀ = true)
    (hne : w ≠ []) (hw : HostText w) (hrun : uriTable.run q₀ w = some q)
    (hfinal : final q = true) :
    within [(512, 512), (516, 520), (523, 541), (543, 560)] q = true ∧
      go s p q₀ ⟨none, u⟩ = go s (p + w.length) q ⟨some p, u⟩ := by
  have hend : ∀ q, within hostStates q = true → final q = true →
      within [(512, 512), (516, 520), (523, 541), (543, 560)] q = true := by
    intro q hq hfinal
    simp only [final, decide_eq_true_eq] at hfinal
    simp only [hostStates, within_cons, within_nil, Bool.false_eq_true, or_false] at hq ⊢
    omega
  rcases hw with hw | ⟨v, rfl, hv⟩
  · obtain ⟨c, w, rfl⟩ := List.exists_cons_of_ne_nil hne
    obtain ⟨q₁, hq₁, hrun, hgo₁⟩ := go_step (x := ⟨none, u⟩) layout.host_first hs hq₀
      (hw c List.mem_cons_self) hrun rfl
    obtain ⟨q₂, hq₂, hrun, hgo₂⟩ := go_stays (v := []) layout.host_stays ⟨some p, u⟩
      (drop_succ hs) hq₁ (fun d hd => hw d (List.mem_cons_of_mem _ hd)) (by simpa using hrun)
    obtain rfl : q₂ = q := by simpa [Table.run] using hrun
    refine ⟨hend q₂ hq₂ hfinal, ?_⟩
    rw [hgo₁, List.length_cons, Nat.add_comm w.length, ← Nat.add_assoc]
    exact hgo₂
  · obtain ⟨q₁, hq₁, hrun, hgo₁⟩ := go_step (x := ⟨none, u⟩) layout.literal_first
      (show s.drop p = 91 :: (v ++ [93] ++ rest) from hs) hq₀ (by decide) hrun rfl
    have hv₀ : s.drop (p + 1) = v ++ 93 :: rest := by simpa using drop_succ hs
    obtain ⟨q₂, hq₂, hrun, hgo₂⟩ := go_stays layout.literal_stays ⟨some p, u⟩ hv₀ hq₁ hv hrun
    obtain ⟨hrun, hgo₃⟩ := go_step_eq layout.literal_last (drop_add hv₀) hq₂ (by decide)
      hrun rfl
    obtain rfl : 512 = q := by simpa [Table.run] using hrun
    refine ⟨by decide, ?_⟩
    have hlen : p + (91 :: v ++ [93]).length = p + 1 + v.length + 1 := by
      simp only [List.cons_append, List.length_cons, List.length_append, List.length_nil]
      omega
    rw [hgo₁, hgo₂, hgo₃, hlen]

/-- **The host.** Behind it both a `:` and a `/` save it. -/
theorem go_host {w rest : List UInt8} {p q₀ q : ℕ} {u : Uri}
    (hs : s.drop p = w ++ rest) (hq₀ : within [(511, 511), (522, 522)] q₀ = true)
    (hw : HostText w) (hrun : uriTable.run q₀ w = some q) (hfinal : final q = true) :
    within hostEnds q = true ∧ ∃ x, go s p q₀ ⟨none, u⟩ = go s (p + w.length) q x ∧
      runActs (act s) (p + w.length) (slashActs q) x =
        .ok ⟨some (p + w.length), { u with host := w }⟩ ∧
      runActs (act s) (p + w.length) (colonActs q) x = .ok ⟨some p, { u with host := w }⟩ := by
  by_cases hne : w = []
  · subst hne
    obtain rfl : q₀ = q := by simpa [Table.run] using hrun
    have hq : q₀ = 511 ∨ q₀ = 522 := by
      simp only [within_cons, within_nil, Bool.false_eq_true, or_false] at hq₀
      omega
    refine ⟨by rcases hq with rfl | rfl <;> decide, ⟨none, u⟩, rfl, ?_, ?_⟩
    · rw [slashActs, if_pos hq]
      simp [runActs, act, marked_self, Except.map]
    · rw [colonActs, if_pos hq]
      simp [runActs, act, marked_self, Except.map]
  · obtain ⟨hq, hgo⟩ := go_hostBytes (u := u) hs hq₀ hne hw hrun hfinal
    obtain ⟨hends, hslash, hcolon⟩ := host_not_start q hq
    refine ⟨hends, ⟨some p, u⟩, hgo, ?_, ?_⟩
    · rw [hslash]
      simp [runActs, act, marked_drop hs, Except.map]
    · rw [hcolon]
      exact runActs_saveHost hs

/-! ## The port -/

/-- **The port.** Without a digit `save_port` leaves no `mark`. -/
theorem go_port {ds rest v : List UInt8} {p q q' : ℕ} {m : ℕ} {u : Uri} {x : Scan}
    (hs : s.drop p = 58 :: ds ++ rest) (hq : within hostEnds q = true)
    (hcolon : runActs (act s) p (colonActs q) x = .ok ⟨some m, u⟩)
    (hds : ∀ c ∈ ds, (digit 10 c).isSome = true)
    (hrun : uriTable.run q (58 :: ds ++ v) = some q') :
    ∃ q₁ x₁, within authorityEnds q₁ = true ∧ uriTable.run q₁ v = some q' ∧
      go s p q x = go s (p + (58 :: ds).length) q₁ x₁ ∧
      runActs (act s) (p + (58 :: ds).length) (slashActs q₁) x₁ =
        .ok ⟨if ds = [] then none else some (p + (58 :: ds).length),
          { u with port := if ds = [] then u.port else atoi (ds ++ rest) }⟩ := by
  obtain ⟨q₁, hq₁, hrun, hgo₁⟩ := go_step layout.host_colon hs hq (by decide) hrun hcolon
  have hds₀ : s.drop (p + 1) = ds ++ rest := drop_succ hs
  have hlen : p + (58 :: ds).length = p + 1 + ds.length := by
    rw [List.length_cons]
    omega
  rw [hlen]
  cases ds with
  | nil =>
      have hq₁' : q₁ = 514 ∨ q₁ = 521 := by
        simp only [within_cons, within_nil, Bool.false_eq_true, or_false] at hq₁
        omega
      refine ⟨q₁, _, by rcases hq₁' with rfl | rfl <;> decide, hrun, hgo₁, ?_⟩
      rw [slashActs, if_neg (by omega), if_pos hq₁']
      simp [runActs, act]
  | cons d ds =>
      obtain ⟨q₂, hq₂, hrun, hgo₂⟩ := go_step (x := ⟨some m, u⟩) layout.port_first hds₀ hq₁
        (within_digit (hds d List.mem_cons_self)) hrun rfl
      obtain ⟨q₃, hq₃, hrun, hgo₃⟩ := go_stays layout.port_stays ⟨some (p + 1), u⟩
        (drop_succ hds₀) hq₂
        (fun c hc => within_digit (hds c (List.mem_cons_of_mem _ hc))) hrun
      have hq₃' : q₃ = 515 ∨ q₃ = 542 := by
        simp only [portStates, within_cons, within_nil, Bool.false_eq_true, or_false] at hq₃
        omega
      refine ⟨q₃, ⟨some (p + 1), u⟩, by rcases hq₃' with rfl | rfl <;> decide, hrun, ?_, ?_⟩
      · rw [hgo₁, hgo₂, List.length_cons, Nat.add_comm ds.length, ← Nat.add_assoc]
        exact hgo₃
      · rw [slashActs, if_neg (by omega), if_neg (by omega), if_pos hq₃']
        simp [runActs, act, hds₀]

/-! ## The path -/

/-- **The path.** What is in front of it left a `mark` at its start, or none. -/
theorem go_path {w rest : List UInt8} {p q q' : ℕ} {mark : Option ℕ} {u : Uri} {x : Scan}
    (hs : s.drop p = w ++ rest) (hq : within authorityEnds q = true)
    (hslash : runActs (act s) p (slashActs q) x = .ok ⟨mark, u⟩)
    (hw : w = [] ∨ w.head? = some 47) (hbytes : ∀ c ∈ w, within pathBytes c.toNat = true)
    (hrun : uriTable.run q w = some q') (hfinal : final q' = true) :
    within pathEnds q' = true ∧ ∃ x', go s p q x = go s (p + w.length) q' x' ∧
      runActs (act s) (p + w.length) (endActs q') x' =
        (marked s mark (p + w.length)).map fun v => ⟨none, { u with path := v }⟩ := by
  cases w with
  | nil =>
      obtain rfl : q = q' := by simpa [Table.run] using hrun
      simp only [authorityEnds, within_cons, within_nil, Bool.false_eq_true, or_false] at hq
      refine ⟨?_, x, rfl, ?_⟩
      · simp only [pathEnds, within_cons, within_nil, Bool.false_eq_true, or_false]
        omega
      · rw [endActs, if_neg (by omega), if_neg (by omega), if_neg (by omega), runActs_append]
        rw [List.length_nil, Nat.add_zero, hslash]
        simp only [Except.bind, runActs, act]
        cases marked s mark p <;> rfl
  | cons c w =>
      obtain rfl : c = 47 := by simpa using hw
      obtain ⟨hrun, hgo₁⟩ := go_step_eq layout.slash hs hq (by decide) hrun hslash
      obtain ⟨q₁, hq₁, hrun, hgo₂⟩ := go_stays (v := []) layout.path_stays ⟨mark, u⟩
        (drop_succ hs) (show within pathStates 513 = true by decide)
        (fun d hd => hbytes d (List.mem_cons_of_mem _ hd)) (by simpa using hrun)
      obtain rfl : q₁ = q' := by simpa [Table.run] using hrun
      obtain rfl : q₁ = 513 := by
        simp only [final, decide_eq_true_eq] at hfinal
        simp only [pathStates, within_cons, within_nil, Bool.false_eq_true, or_false] at hq₁
        omega
      have hlen : p + (47 :: w).length = p + 1 + w.length := by
        rw [List.length_cons]
        omega
      rw [hlen]
      refine ⟨by decide, ⟨mark, u⟩, hgo₁.trans hgo₂, ?_⟩
      rw [endActs, if_neg (by decide), if_neg (by decide), if_pos rfl]
      simp only [runActs, act]
      cases marked s mark (p + 1 + w.length) <;> rfl

/-! ## Query and fragment -/

/-- The bytes behind the one that leads to state `a`, with `mark` at the first of them: unless
there are none they end in state `b`. -/
theorem go_part {T on : List (ℕ × ℕ)} {a b : ℕ}
    (hfirst : leads [(a, a)] on (fun _ => [.mark]) T = true) (hstays : uriTable.stays T on = true)
    (hlast : ∀ q, within T q = true → final q = true → q = b) {w rest : List UInt8} {p q' : ℕ}
    (mark : Option ℕ) (u : Uri) (hs : s.drop p = w ++ rest)
    (hbytes : ∀ c ∈ w, within on c.toNat = true) (hrun : uriTable.run a w = some q')
    (hfinal : final q' = true) :
    w = [] ∧ q' = a ∨
      q' = b ∧ go s p a ⟨mark, u⟩ = go s (p + w.length) b ⟨some p, u⟩ := by
  cases w with
  | nil => exact Or.inl ⟨rfl, (by simpa [Table.run] using hrun : a = q').symm⟩
  | cons c w =>
      obtain ⟨q₂, hq₂, hrun, hgo₂⟩ := go_step (x := ⟨mark, u⟩) hfirst hs (within_self a)
        (hbytes c List.mem_cons_self) hrun rfl
      obtain ⟨q₃, hq₃, hrun, hgo₃⟩ := go_stays (v := []) hstays ⟨some p, u⟩ (drop_succ hs) hq₂
        (fun d hd => hbytes d (List.mem_cons_of_mem _ hd)) (by simpa using hrun)
      obtain rfl : q₃ = q' := by simpa [Table.run] using hrun
      obtain rfl := hlast q₃ hq₃ hfinal
      refine Or.inr ⟨rfl, ?_⟩
      rw [hgo₂, List.length_cons, Nat.add_comm w.length, ← Nat.add_assoc]
      exact hgo₃

/-- A query behind its `?`, whatever `mark` was. -/
theorem go_query_from {w rest : List UInt8} {p q' : ℕ} (mark : Option ℕ) (u : Uri)
    (hs : s.drop p = w ++ rest) (hbytes : ∀ c ∈ w, within queryBytes c.toNat = true)
    (hrun : uriTable.run 456 w = some q') (hfinal : final q' = true) :
    within [(456, 457)] q' = true ∧ ∃ x', go s p 456 ⟨mark, u⟩ = go s (p + w.length) q' x' ∧
      runActs (act s) (p + w.length) (endActs q') x' = .ok ⟨none, { u with query := w }⟩ := by
  have hlast : ∀ q, within queryStates q = true → final q = true → q = 457 := by
    intro q hq hfinal
    simp only [final, decide_eq_true_eq] at hfinal
    simp only [queryStates, within_cons, within_nil, Bool.false_eq_true, or_false] at hq
    omega
  rcases go_part layout.query_first layout.query_stays hlast mark u hs hbytes hrun hfinal with
    ⟨rfl, rfl⟩ | ⟨rfl, hgo⟩
  · refine ⟨by decide, ⟨mark, u⟩, rfl, ?_⟩
    rw [endActs, if_pos rfl]
    simp [runActs, act, marked_self, Except.map]
  · refine ⟨by decide, ⟨some p, u⟩, hgo, ?_⟩
    rw [endActs, if_neg (by decide), if_pos rfl]
    simp only [runActs, act, marked_drop hs, Except.map]

theorem go_query {w rest : List UInt8} {p q q' : ℕ} {u : Uri} {x : Scan}
    (hs : s.drop p = 63 :: w ++ rest) (hq : within pathEnds q = true)
    (hacts : runActs (act s) p (endActs q) x = .ok ⟨none, u⟩)
    (hbytes : ∀ c ∈ w, within queryBytes c.toNat = true)
    (hrun : uriTable.run q (63 :: w) = some q') (hfinal : final q' = true) :
    within [(456, 457)] q' = true ∧ ∃ x', go s p q x = go s (p + (63 :: w).length) q' x' ∧
      runActs (act s) (p + (63 :: w).length) (endActs q') x' =
        .ok ⟨none, { u with query := w }⟩ := by
  obtain ⟨hrun, hgo₁⟩ := go_step_eq layout.path_query hs hq (by decide) hrun hacts
  have hlen : p + (63 :: w).length = p + 1 + w.length := by
    rw [List.length_cons]
    omega
  rw [hlen]
  obtain ⟨hq', x', hgo₂, hacts'⟩ := go_query_from none u (drop_succ hs) hbytes hrun hfinal
  exact ⟨hq', x', hgo₁.trans hgo₂, hacts'⟩

/-- A fragment behind its `#`. -/
theorem go_fragment_from {w : List UInt8} {p q' : ℕ} (mark : Option ℕ) (u : Uri)
    (hs : s.drop p = w) (hrun : uriTable.run 453 w = some q') (hfinal : final q' = true) :
    ∃ x', go s p 453 ⟨mark, u⟩ = go s (p + w.length) q' x' ∧
      runActs (act s) (p + w.length) (eofActs q') x' =
        .ok ⟨none, { u with fragment := w }⟩ := by
  have hall : ∀ c : UInt8, within [(0, 255)] c.toNat = true := by decide
  have hlast : ∀ q, within fragmentStates q = true → final q = true → q = 454 := by
    intro q hq hfinal
    simp only [final, decide_eq_true_eq] at hfinal
    simp only [fragmentStates, within_cons, within_nil, Bool.false_eq_true, or_false] at hq
    omega
  have hs' : s.drop p = w ++ [] := hs.trans (List.append_nil _).symm
  rcases go_part layout.fragment_first layout.fragment_stays hlast mark u hs' (fun c _ => hall c)
    hrun hfinal with ⟨rfl, rfl⟩ | ⟨rfl, hgo⟩
  · refine ⟨⟨mark, u⟩, rfl, ?_⟩
    rw [show eofActs 453 = [.mark, .saveFragment] by decide]
    simp [runActs, act, marked_self, Except.map]
  · refine ⟨⟨some p, u⟩, hgo, ?_⟩
    rw [show eofActs 454 = [.saveFragment] by decide]
    simp only [runActs, act, marked_drop hs', Except.map]

theorem go_fragment {w : List UInt8} {p q q' : ℕ} {u : Uri} {x : Scan}
    (hs : s.drop p = 35 :: w) (hq : within ((456, 457) :: pathEnds) q = true)
    (hacts : runActs (act s) p (endActs q) x = .ok ⟨none, u⟩)
    (hrun : uriTable.run q (35 :: w) = some q') (hfinal : final q' = true) :
    ∃ x', go s p q x = go s (p + (35 :: w).length) q' x' ∧
      runActs (act s) (p + (35 :: w).length) (eofActs q') x' =
        .ok ⟨none, { u with fragment := w }⟩ := by
  obtain ⟨hrun, hgo₁⟩ := go_step_eq layout.fragment hs hq (by decide) hrun hacts
  have hlen : p + (35 :: w).length = p + 1 + w.length := by
    rw [List.length_cons]
    omega
  rw [hlen]
  obtain ⟨x', hgo₂, hacts'⟩ := go_fragment_from none u (drop_succ hs) hrun hfinal
  exact ⟨x', hgo₁.trans hgo₂, hacts'⟩

/-- The end of a run. -/
theorem create_of_go {p q : ℕ} {x : Scan} {mark : Option ℕ} {u : Uri}
    (hgo : go s 0 451 ⟨none, new⟩ = go s p q x) (hs : s.drop p = [])
    (hfinal : final q = true) (heof : runActs (act s) p (eofActs q) x = .ok ⟨mark, u⟩) :
    create s = .ok (some u) := by
  have hexec : exec uriTable false (fun _ => false) (act s) s 0 451 ⟨none, new⟩ =
      .ok (p, q, x) :=
    hgo.trans (go_end hs)
  simp only [create, hexec]
  simp only [bind, Except.bind, heof, hfinal, if_true, pure, Except.pure]

end Uri

end Skt
