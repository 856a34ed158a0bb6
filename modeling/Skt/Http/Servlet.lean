import Skt.Lib.CString

/-!
# `ServletDispatch`

A servlet is registered for a path or for a glob pattern. The patterns are kept in a
vector, of which `addGlobServlet` and `delGlobServlet` erase the first entry with the
pattern; `getMatchedServlet` takes the first one that matches. What it returns is compared
with the history of calls.
-/

namespace Skt

namespace Http

/-- `m_datas` and `m_globs`, for servlets of type `S`. -/
structure ServletDispatch (S : Type) where
  datas : List UInt8 → Option S
  globs : List (List UInt8 × S)

namespace ServletDispatch

variable {S : Type}

def new : ServletDispatch S := ⟨fun _ => none, []⟩

inductive Call (S : Type)
  | addServlet (uri : List UInt8) (slt : S)
  | addGlobServlet (uri : List UInt8) (slt : S)
  | delServlet (uri : List UInt8)
  | delGlobServlet (uri : List UInt8)

/-- The loop that erases the first entry with a pattern. -/
def eraseGlob (uri : List UInt8) (globs : List (List UInt8 × S)) : List (List UInt8 × S) :=
  globs.eraseP fun e => e.1 = uri

def step (d : ServletDispatch S) : Call S → ServletDispatch S
  | .addServlet uri slt => { d with datas := Function.update d.datas uri (some slt) }
  | .addGlobServlet uri slt => { d with globs := eraseGlob uri d.globs ++ [(uri, slt)] }
  | .delServlet uri => { d with datas := Function.update d.datas uri none }
  | .delGlobServlet uri => { d with globs := eraseGlob uri d.globs }

def run (calls : List (Call S)) : ServletDispatch S := calls.foldl step new

theorem run_snoc (calls : List (Call S)) (c : Call S) :
    run (calls ++ [c]) = step (run calls) c := by
  rw [run, List.foldl_append]
  rfl

/-- `getMatchedServlet`; `fnmatch p uri` says that `fnmatch(p, uri, 0)` returns 0. -/
def getMatchedServlet (fnmatch : List UInt8 → List UInt8 → Bool) (default : S)
    (d : ServletDispatch S) (uri : List UInt8) : S :=
  match d.datas uri with
  | some slt => slt
  | none =>
      match d.globs.find? fun e => fnmatch e.1 uri with
      | some e => e.2
      | none => default

/-! ## Histories -/

def Call.onServlet (uri : List UInt8) : Call S → Bool
  | .addServlet u _ => u = uri
  | .delServlet u => u = uri
  | _ => false

def Call.onGlob (uri : List UInt8) : Call S → Bool
  | .addGlobServlet u _ => u = uri
  | .delGlobServlet u => u = uri
  | _ => false

/-- The `i`-th call is `c`, and none behind it is on the same entry. -/
def Last (calls : List (Call S)) (c : Call S) (on : Call S → Bool) (i : ℕ) : Prop :=
  calls[i]? = some c ∧ ∀ j > i, ∀ c', calls[j]? = some c' → on c' = false

/-- The last `addServlet` for a path, which was not deleted since. -/
def Current (calls : List (Call S)) (uri : List UInt8) (i : ℕ) (slt : S) : Prop :=
  Last calls (.addServlet uri slt) (Call.onServlet uri) i

/-- The last `addGlobServlet` for a pattern, which was not deleted since. -/
def Registered (calls : List (Call S)) (uri : List UInt8) (i : ℕ) (slt : S) : Prop :=
  Last calls (.addGlobServlet uri slt) (Call.onGlob uri) i

theorem Last.lt {calls : List (Call S)} {c : Call S} {on : Call S → Bool} {i : ℕ}
    (h : Last calls c on i) : i < calls.length := (List.getElem?_eq_some_iff.mp h.1).1

/-- One more call is the last one, or leaves the last one as it is. -/
theorem last_snoc_iff {calls : List (Call S)} {c c' : Call S} {on : Call S → Bool} {i : ℕ} :
    Last (calls ++ [c']) c on i ↔
      i = calls.length ∧ c' = c ∨ Last calls c on i ∧ on c' = false := by
  constructor
  · rintro ⟨hget, hlater⟩
    rcases Nat.lt_or_ge i calls.length with hlt | hge
    · right
      rw [List.getElem?_append_left hlt] at hget
      refine ⟨⟨hget, fun j hj d hd => hlater j hj d ?_⟩, ?_⟩
      · rw [List.getElem?_append_left (List.getElem?_eq_some_iff.mp hd).1]
        exact hd
      · exact hlater calls.length hlt c' List.getElem?_concat_length
    · left
      have hi := (List.getElem?_eq_some_iff.mp hget).1
      rw [List.length_append, List.length_singleton] at hi
      obtain rfl : i = calls.length := by omega
      rw [List.getElem?_concat_length] at hget
      exact ⟨rfl, Option.some.inj hget⟩
  · rintro (⟨rfl, rfl⟩ | ⟨hlast, hoff⟩)
    · refine ⟨List.getElem?_concat_length, fun j hj d hd => ?_⟩
      have hlt := (List.getElem?_eq_some_iff.mp hd).1
      rw [List.length_append, List.length_singleton] at hlt
      omega
    · refine ⟨?_, fun j hj d hd => ?_⟩
      · rw [List.getElem?_append_left hlast.lt]
        exact hlast.1
      · rcases Nat.lt_or_ge j calls.length with hlt | hge
        · rw [List.getElem?_append_left hlt] at hd
          exact hlast.2 j hj d hd
        · have hj' := (List.getElem?_eq_some_iff.mp hd).1
          rw [List.length_append, List.length_singleton] at hj'
          obtain rfl : j = calls.length := by omega
          rw [List.getElem?_concat_length] at hd
          obtain rfl := Option.some.inj hd
          exact hoff

/-! ## The tables -/

/-- `m_datas` holds the servlets that are current. -/
def DatasOk (calls : List (Call S)) (d : ServletDispatch S) : Prop :=
  ∀ uri slt, d.datas uri = some slt ↔ ∃ i, Current calls uri i slt

/-- An entry of `m_globs`, with the time of the call that has added it. -/
structure Entry (S : Type) where
  uri : List UInt8
  time : ℕ
  slt : S

/-- `m_globs` holds the patterns that are registered, in the order in which they were added. -/
structure GlobsOk (calls : List (Call S)) (entries : List (Entry S)) : Prop where
  sorted : entries.Pairwise fun a b => a.time < b.time
  mem_iff : ∀ e, e ∈ entries ↔ Registered calls e.uri e.time e.slt

variable {calls : List (Call S)} {entries : List (Entry S)}

/-- A pattern is registered by one call. -/
theorem Registered.unique {uri : List UInt8} {i j : ℕ} {s s' : S}
    (hi : Registered calls uri i s) (hj : Registered calls uri j s') : i = j := by
  rcases Nat.lt_trichotomy i j with hlt | heq | hlt
  · have hoff := hi.2 j hlt _ hj.1
    simp [Call.onGlob] at hoff
  · exact heq
  · have hoff := hj.2 i hlt _ hi.1
    simp [Call.onGlob] at hoff

theorem GlobsOk.nodup (h : GlobsOk calls entries) : (entries.map Entry.uri).Nodup := by
  have hne : entries.Pairwise fun a b => a.uri ≠ b.uri := by
    refine h.sorted.imp_of_mem ?_
    intro a b ha hb hlt heq
    have hreg := (h.mem_iff b).mp hb
    rw [← heq] at hreg
    have htime := ((h.mem_iff a).mp ha).unique hreg
    omega
  exact List.pairwise_map.mpr hne

/-- Where patterns are unique, erasing the first entry erases all. -/
theorem eraseP_eq_filter (uri : List UInt8) : ∀ {entries : List (Entry S)},
    (entries.map Entry.uri).Nodup →
      (entries.eraseP fun e => e.uri = uri) = entries.filter fun e => e.uri ≠ uri
  | [], _ => rfl
  | e :: entries, h => by
      rw [List.map_cons, List.nodup_cons] at h
      by_cases he : e.uri = uri
      · rw [List.eraseP_cons_of_pos (by simpa using he),
          List.filter_cons_of_neg (by simpa using he)]
        refine (List.filter_eq_self.mpr fun e' he' => ?_).symm
        rw [decide_eq_true_eq]
        intro heq
        exact h.1 (List.mem_map.mpr ⟨e', he', heq.trans he.symm⟩)
      · rw [List.eraseP_cons_of_neg (by simpa using he),
          List.filter_cons_of_pos (by simpa using he), eraseP_eq_filter uri h.2]

/-- What stands in `m_globs` for entries. -/
def pairs (entries : List (Entry S)) : List (List UInt8 × S) :=
  entries.map fun e => (e.uri, e.slt)

theorem eraseGlob_pairs (uri : List UInt8) (h : (entries.map Entry.uri).Nodup) :
    eraseGlob uri (pairs entries) = pairs (entries.filter fun e => e.uri ≠ uri) := by
  rw [eraseGlob, pairs, List.eraseP_map, ← eraseP_eq_filter uri h]
  rfl

/-- A call that is not about patterns. -/
theorem GlobsOk.of_off (h : GlobsOk calls entries) {c : Call S}
    (hoff : ∀ uri, c.onGlob uri = false) (hne : ∀ uri slt, c ≠ .addGlobServlet uri slt) : GlobsOk (calls ++ [c]) entries where
  sorted := h.sorted
  mem_iff e := by
    rw [h.mem_iff e, Registered, Registered, last_snoc_iff]
    constructor
    · intro hlast
      exact Or.inr ⟨hlast, hoff e.uri⟩
    · rintro (⟨-, hadd⟩ | ⟨hlast, -⟩)
      · exact absurd hadd (hne _ _)
      · exact hlast

/-- Entries of other patterns stay. -/
theorem GlobsOk.of_filter (h : GlobsOk calls entries) (uri : List UInt8) (e : Entry S) :
    e ∈ entries.filter (fun e => e.uri ≠ uri) ↔
      e.uri ≠ uri ∧ Registered calls e.uri e.time e.slt := by
  rw [List.mem_filter, decide_eq_true_eq, h.mem_iff e, and_comm]

theorem GlobsOk.delGlob (h : GlobsOk calls entries) (uri : List UInt8) :
    GlobsOk (calls ++ [.delGlobServlet uri]) (entries.filter fun e => e.uri ≠ uri) where
  sorted := h.sorted.filter _
  mem_iff e := by
    rw [h.of_filter, Registered, Registered, last_snoc_iff]
    constructor
    · rintro ⟨hne, hlast⟩
      exact Or.inr ⟨hlast, by simpa [Call.onGlob] using Ne.symm hne⟩
    · rintro (⟨-, hadd⟩ | ⟨hlast, hoff⟩)
      · cases hadd
      · exact ⟨by simpa [Call.onGlob, eq_comm] using hoff, hlast⟩

theorem GlobsOk.addGlob (h : GlobsOk calls entries) (uri : List UInt8) (slt : S) :
    GlobsOk (calls ++ [.addGlobServlet uri slt])
      ((entries.filter fun e => e.uri ≠ uri) ++ [⟨uri, calls.length, slt⟩]) where
  sorted := by
    refine List.pairwise_append.mpr ⟨h.sorted.filter _, List.pairwise_singleton _ _, ?_⟩
    intro a ha b hb
    rw [List.mem_singleton.mp hb]
    exact ((h.of_filter uri a).mp ha).2.lt
  mem_iff e := by
    rw [List.mem_append, h.of_filter, List.mem_singleton, Registered, Registered, last_snoc_iff]
    constructor
    · rintro (⟨hne, hlast⟩ | rfl)
      · exact Or.inr ⟨hlast, by simpa [Call.onGlob] using Ne.symm hne⟩
      · exact Or.inl ⟨rfl, rfl⟩
    · rintro (⟨htime, hadd⟩ | ⟨hlast, hoff⟩)
      · right
        obtain ⟨u, t, s⟩ := e
        cases hadd
        cases htime
        rfl
      · exact Or.inl ⟨by simpa [Call.onGlob, eq_comm] using hoff, hlast⟩

theorem DatasOk.step {d : ServletDispatch S} (h : DatasOk calls d) (c : Call S) :
    DatasOk (calls ++ [c]) (step d c) := by
  intro uri slt
  simp only [Current, last_snoc_iff]
  cases c with
  | addServlet u s =>
      show Function.update d.datas u (some s) uri = some slt ↔ _
      rw [Function.update_apply]
      split_ifs with hu
      · subst hu
        simp [Call.onServlet]
      · rw [h uri slt]
        constructor
        · rintro ⟨i, hi⟩
          exact ⟨i, Or.inr ⟨hi, by simpa [Call.onServlet] using Ne.symm hu⟩⟩
        · rintro ⟨i, ⟨-, hadd⟩ | ⟨hi, -⟩⟩
          · cases hadd
            exact absurd rfl hu
          · exact ⟨i, hi⟩
  | delServlet u =>
      show Function.update d.datas u none uri = some slt ↔ _
      rw [Function.update_apply]
      split_ifs with hu
      · subst hu
        simp [Call.onServlet]
      · rw [h uri slt]
        constructor
        · rintro ⟨i, hi⟩
          exact ⟨i, Or.inr ⟨hi, by simpa [Call.onServlet] using Ne.symm hu⟩⟩
        · rintro ⟨i, ⟨-, hadd⟩ | ⟨hi, -⟩⟩
          · cases hadd
          · exact ⟨i, hi⟩
  | addGlobServlet u s =>
      rw [ServletDispatch.step, h uri slt]
      simp [Current, Call.onServlet]
  | delGlobServlet u =>
      rw [ServletDispatch.step, h uri slt]
      simp [Current, Call.onServlet]

/-- Both tables, behind any history. -/
theorem run_ok (calls : List (Call S)) : DatasOk calls (run calls) ∧
    ∃ entries, GlobsOk calls entries ∧ (run calls).globs = pairs entries := by
  induction calls using List.reverseRecOn with
  | nil =>
      refine ⟨fun uri slt => ?_, [], ⟨List.Pairwise.nil, fun e => ?_⟩, rfl⟩
      · simp [run, new, Current, Last]
      · simp [Registered, Last]
  | append_singleton calls c ih =>
      obtain ⟨hdatas, entries, hglobs, heq⟩ := ih
      rw [run_snoc]
      refine ⟨hdatas.step c, ?_⟩
      cases c with
      | addServlet u s =>
          exact ⟨entries, hglobs.of_off (fun _ => rfl) (fun _ _ h => by cases h), heq⟩
      | delServlet u =>
          exact ⟨entries, hglobs.of_off (fun _ => rfl) (fun _ _ h => by cases h), heq⟩
      | addGlobServlet u s =>
          refine ⟨_, hglobs.addGlob u s, ?_⟩
          rw [step, heq, eraseGlob_pairs u hglobs.nodup]
          simp [pairs]
      | delGlobServlet u =>
          refine ⟨_, hglobs.delGlob u, ?_⟩
          rw [step, heq, eraseGlob_pairs u hglobs.nodup]

/-! ## Looking up -/

theorem DatasOk.eq_none {d : ServletDispatch S} (h : DatasOk calls d) {uri : List UInt8}
    (hnone : ∀ i slt, ¬Current calls uri i slt) : d.datas uri = none := by
  refine Option.eq_none_iff_forall_ne_some.mpr fun slt hsome => ?_
  obtain ⟨i, hi⟩ := (h uri slt).mp hsome
  exact hnone i slt hi

/-- The first entry that matches is the oldest one that does. -/
theorem find_oldest (h : GlobsOk calls entries) {p : List UInt8 → Bool} {e : Entry S}
    (he : Registered calls e.uri e.time e.slt) (hp : p e.uri = true)
    (hold : ∀ e' : Entry S, Registered calls e'.uri e'.time e'.slt → p e'.uri = true →
      e.time ≤ e'.time) :
    (pairs entries).find? (fun x => p x.1) = some (e.uri, e.slt) := by
  obtain ⟨as, bs, rfl⟩ := List.append_of_mem ((h.mem_iff e).mpr he)
  rw [pairs, List.find?_map, Option.map_eq_some_iff]
  refine ⟨e, ?_, rfl⟩
  have hnone : as.find? ((fun x => p x.1) ∘ fun e => (e.uri, e.slt)) = none := by
    refine List.find?_eq_none.mpr ?_
    intro e' he' hmatch
    have hmem : e' ∈ as ++ e :: bs := List.mem_append_left _ he'
    have hle := hold e' ((h.mem_iff e').mp hmem) hmatch
    have hlt := (List.pairwise_append.mp h.sorted).2.2 e' he' e List.mem_cons_self
    omega
  rw [List.find?_append, hnone, Option.none_or]
  exact List.find?_cons_of_pos hp

/-- **Dispatching.** A path goes to the servlet that was last added for it, unless that was
deleted; otherwise to that of the oldest pattern that matches, among those that are
registered; otherwise to the default. `m_globs` has each pattern once, so that a pattern
that is deleted is gone. -/
theorem getMatchedServlet_spec (fnmatch : List UInt8 → List UInt8 → Bool) (default : S)
    (calls : List (Call S)) (uri : List UInt8) :
    (∀ i slt, Current calls uri i slt →
      getMatchedServlet fnmatch default (run calls) uri = slt) ∧
    ((∀ i slt, ¬Current calls uri i slt) →
      (∀ p i slt, Registered calls p i slt → fnmatch p uri = true →
        (∀ q j slt', Registered calls q j slt' → fnmatch q uri = true → i ≤ j) →
          getMatchedServlet fnmatch default (run calls) uri = slt) ∧
      ((∀ p i slt, Registered calls p i slt → fnmatch p uri = false) →
        getMatchedServlet fnmatch default (run calls) uri = default)) ∧
    ((run calls).globs.map Prod.fst).Nodup ∧
    ∀ p, p ∉ (run (calls ++ [.delGlobServlet p])).globs.map Prod.fst := by
  obtain ⟨hdatas, entries, hglobs, heq⟩ := run_ok calls
  have hkeys : ∀ l : List (Entry S), (pairs l).map Prod.fst = l.map Entry.uri := by
    intro l
    rw [pairs, List.map_map]
    rfl
  refine ⟨fun i slt hcur => ?_, fun hnone => ⟨fun p i slt hreg hmatch hold => ?_,
    fun hall => ?_⟩, ?_, fun p hmem => ?_⟩
  · rw [getMatchedServlet, (hdatas uri slt).mpr ⟨i, hcur⟩]
  · have hfind := find_oldest hglobs (p := fun q => fnmatch q uri) (e := ⟨p, i, slt⟩) hreg
      hmatch fun e' he' hm => hold e'.uri e'.time e'.slt he' hm
    rw [getMatchedServlet, hdatas.eq_none hnone, heq]
    simp only [hfind]
  · have hfind : (run calls).globs.find? (fun e => fnmatch e.1 uri) = none := by
      refine List.find?_eq_none.mpr fun e he => ?_
      rw [heq, pairs] at he
      obtain ⟨e', he', rfl⟩ := List.mem_map.mp he
      rw [hall e'.uri e'.time e'.slt ((hglobs.mem_iff e').mp he')]
      exact Bool.false_ne_true
    rw [getMatchedServlet, hdatas.eq_none hnone]
    simp only [hfind]
  · rw [heq, hkeys]
    exact hglobs.nodup
  · rw [run_snoc, step, heq, eraseGlob_pairs p hglobs.nodup, hkeys] at hmem
    obtain ⟨e, he, rfl⟩ := List.mem_map.mp hmem
    exact ((hglobs.of_filter e.uri e).mp he).1 rfl

end ServletDispatch

end Http

end Skt
