import Skt.Http.Pool

/-!
# Ages and requests of pooled connections

The pool with what it does not record itself: when a connection was made, and how often it
was handed out. `m_createTime` is read in two places and set in none; `m_request` is
incremented when a connection comes back, behind the use that it counts.
-/

namespace Skt

set_option maxRecDepth 4000

namespace Http

namespace HttpConnectionPool

open Lib Lib.CString

/-! ## What a step does to the connections -/

/-- The connection that a call of `getConnection` is going to return. -/
def Phase.picked : Phase → Option ℕ
  | .discard _ _ ptr => ptr
  | .chosen ptr => ptr
  | .created ptr => some ptr
  | _ => none

namespace Pool

/-- The connection that a step hands to a client. -/
def handedTo (s : Pool) (l : Label) : Option ℕ :=
  match l, s.threads (thread l) with
  | .hand _, .chosen (some ptr) => some ptr
  | _, _ => none

/-- `++ptr->m_request`. -/
def Conn.used (c : Conn) : Conn := { c with request := c.request + 1 }

/-- What a step of a thread into phase `p` does to the connections, and to those that
clients hold. -/
inductive Effect (cfg : Config) (s : Pool) (l : Label) (s' : Pool) (p : Phase) : Prop
  | quiet (hinfo : s'.info = s.info) (hheld : s'.held = s.held) (hnext : s'.next = s.next)
      (hnone : handedTo s l = none)
      (hpicked : p.picked = none ∨ p.picked = (s.threads (thread l)).picked)
  | scan (t : ℕ) (connected : ℕ → Bool) (now : UInt64)
      (hlabel : l = .getConnection t connected now) (hinfo : s'.info = s.info)
      (hheld : s'.held = s.held) (hnext : s'.next = s.next) (hnone : handedTo s l = none)
      (hpicked : p.picked = (scan cfg s.info connected now s.conns).2.1)
  | connect (hinfo : s'.info = Function.update s.info s.next .new) (hheld : s'.held = s.held)
      (hnext : s'.next = s.next + 1) (hnone : handedTo s l = none)
      (hpicked : p.picked = some s.next)
  | hand (ptr : ℕ) (hinfo : s'.info = s.info) (hheld : s'.held = ptr :: s.held)
      (hnext : s'.next = s.next) (hsome : handedTo s l = some ptr) (hpicked : p.picked = none)
      (hbefore : (s.threads (thread l)).picked = some ptr)
  | release (ptr : ℕ) (hmem : ptr ∈ s.held)
      (hinfo : s'.info = Function.update s.info ptr (Conn.used (s.info ptr)))
      (hheld : s'.held = s.held.erase ptr) (hnext : s'.next = s.next)
      (hnone : handedTo s l = none) (hpicked : p.picked = none)

variable {cfg : Config} {n : ℕ} {s s' : Pool} {l : Label}

theorem stepIn_effect (hstep : stepIn cfg s (s.threads (thread l)) l = some s') :
    ∃ p, s'.threads = Function.update s.threads (thread l) p ∧ Effect cfg s l s' p := by
  generalize hp : s.threads (thread l) = p at hstep
  unfold Pool.stepIn at hstep
  split at hstep
  case h_1 t connected now =>
    obtain rfl := Option.some.inj hstep
    exact ⟨_, rfl, .scan t connected now rfl rfl rfl rfl rfl rfl⟩
  case h_2 c invalid size ptr t =>
    obtain rfl := Option.some.inj hstep
    exact ⟨_, rfl, .quiet rfl rfl rfl rfl (.inr (by rw [hp]; rfl))⟩
  case h_3 size ptr t =>
    obtain rfl := Option.some.inj hstep
    exact ⟨_, rfl, .quiet rfl rfl rfl rfl (.inr (by rw [hp]; rfl))⟩
  case h_4 t =>
    obtain rfl := Option.some.inj hstep
    exact ⟨_, rfl, .quiet rfl rfl rfl rfl (.inl rfl)⟩
  case h_5 t =>
    obtain rfl := Option.some.inj hstep
    exact ⟨_, rfl, .connect rfl rfl rfl rfl rfl⟩
  case h_6 ptr t =>
    obtain rfl := Option.some.inj hstep
    exact ⟨_, rfl, .quiet rfl rfl rfl rfl (.inr (by rw [hp]; rfl))⟩
  case h_7 ptr t =>
    obtain rfl := Option.some.inj hstep
    exact ⟨_, rfl, .hand ptr rfl rfl rfl (by simp only [handedTo, hp]) rfl
      (by rw [hp]; rfl)⟩
  case h_8 t ptr =>
    split_ifs at hstep with hmem
    obtain rfl := Option.some.inj hstep
    exact ⟨_, rfl, .release ptr hmem rfl rfl rfl rfl rfl⟩
  case h_9 ptr t connected now =>
    obtain rfl := Option.some.inj hstep
    refine ⟨_, rfl, .quiet rfl rfl rfl rfl (.inl ?_)⟩
    split_ifs <;> rfl
  case h_10 ptr t =>
    obtain rfl := Option.some.inj hstep
    exact ⟨_, rfl, .quiet rfl rfl rfl rfl (.inl rfl)⟩
  case h_11 t =>
    obtain rfl := Option.some.inj hstep
    exact ⟨_, rfl, .quiet rfl rfl rfl rfl (.inl rfl)⟩
  case h_12 ptr t =>
    obtain rfl := Option.some.inj hstep
    exact ⟨_, rfl, .quiet rfl rfl rfl rfl (.inl rfl)⟩
  case h_13 => exact absurd hstep (by simp)

theorem threads_getConnection {p : Phase} {t : ℕ} {connected : ℕ → Bool} {now : UInt64}
    (hstep : stepIn cfg s p (.getConnection t connected now) = some s') :
    s'.threads t = .discard (scan cfg s.info connected now s.conns).1
      (scan cfg s.info connected now s.conns).1.length
      (scan cfg s.info connected now s.conns).2.1 := by
  cases p with
  | idle =>
      obtain rfl := Option.some.inj hstep
      exact Function.update_self t _ _
  | _ => simp [stepIn] at hstep

theorem threads_check {p : Phase} {t : ℕ} {connected : Bool} {now : UInt64}
    (hstep : stepIn cfg s p (.check t connected now) = some s') :
    ∃ ptr, p = .released ptr ∧ s'.threads t =
      if worn cfg (s.info ptr) connected now then .remove ptr else .give ptr := by
  cases p with
  | released ptr =>
      obtain rfl := Option.some.inj hstep
      exact ⟨ptr, rfl, Function.update_self t _ _⟩
  | _ => simp [stepIn] at hstep

/-- No connection has a time of creation. -/
def Timeless (s : Pool) : Prop := ∀ c, (s.info c).createTime = 0

theorem Timeless.of_effect {p : Phase} (h : Timeless s) (heffect : Effect cfg s l s' p) :
    Timeless s' := by
  intro c
  cases heffect with
  | quiet hinfo => rw [hinfo]; exact h c
  | scan t connected now hlabel hinfo => rw [hinfo]; exact h c
  | connect hinfo =>
      rw [hinfo, Function.update_apply]
      split_ifs
      · rfl
      · exact h c
  | hand ptr hinfo => rw [hinfo]; exact h c
  | release ptr hmem hinfo =>
      rw [hinfo, Function.update_apply]
      split_ifs with heq
      · exact h ptr
      · exact h c

end Pool

/-! ## Histories -/

/-- A pool, the time, when each connection was made and how often it was handed out. -/
structure History where
  pool : Pool
  clock : UInt64
  born : ℕ → UInt64
  handed : ℕ → ℕ

namespace History

variable (cfg : Config)

/-- The reading of the clock that a step uses is not ahead of `time`. It may be behind it:
`getConnection` reads the clock in front of the lock. -/
def reads (time : UInt64) : Label → Bool
  | .getConnection _ _ now => now ≤ time
  | .check _ _ now => now ≤ time
  | _ => true

/-- A step at a time that is not before the last one's. -/
def step (n : ℕ) (s : History) (l : Label × UInt64) : Option History :=
  if s.clock ≤ l.2 ∧ reads l.2 l.1 then
    (Pool.step cfg n s.pool l.1).map fun pool =>
      { pool := pool
        clock := l.2
        born := match l.1 with
          | .connect _ => Function.update s.born s.pool.next l.2
          | _ => s.born
        handed := fun c =>
          s.handed c + if Pool.handedTo s.pool l.1 = some c then 1 else 0 }
  else none

def machine (n : ℕ) : Machine History (Label × UInt64) where
  start := { pool := (Pool.machine cfg n).start, clock := 0, born := fun _ => 0,
             handed := fun _ => 0 }
  step := step cfg n

variable {cfg} {n : ℕ} {s s' : History} {l : Label × UInt64}

theorem pool_step (h : step cfg n s l = some s') :
    Pool.thread l.1 < n ∧ Pool.stepIn cfg s.pool (s.pool.threads (Pool.thread l.1)) l.1 = some s'.pool ∧
      s'.handed = fun c => s.handed c + if Pool.handedTo s.pool l.1 = some c then 1 else 0 := by
  unfold step at h
  split_ifs at h
  obtain ⟨pool, hpool, rfl⟩ := Option.map_eq_some_iff.mp h
  unfold Pool.step at hpool
  split_ifs at hpool with ht
  exact ⟨ht, hpool, rfl⟩

/-! ## Ages -/

/-- Less than `m_maxAliveTime` milliseconds old. -/
def Young (cfg : Config) (born : ℕ → UInt64) (now : UInt64) (c : ℕ) : Prop :=
  now.toNat < (born c).toNat + cfg.maxAliveTime.toNat

/-- Still connected, young, and within its budget of requests. -/
def Usable (cfg : Config) (s : History) (connected : Bool) (now : UInt64) (c : ℕ) : Prop :=
  connected = true ∧ Young cfg s.born now c ∧
    (s.pool.info c).request ≤ cfg.maxRequest.toUInt64

/-- What a step that looks at ages may do: `getConnection` returns young connections, and
neither it nor `ReleasePtr` discards one that is usable. -/
def Fair (cfg : Config) (s : History) (l : Label) (s' : History) : Prop :=
  match l with
  | .getConnection t connected now => ∀ invalid size ptr,
      s'.pool.threads t = .discard invalid size ptr →
        (∀ c, ptr = some c → Young cfg s.born now c) ∧
          ∀ c ∈ invalid, ¬Usable cfg s (connected c) now c
  | .check t connected now => ∀ ptr, s.pool.threads t = .released ptr →
      s'.pool.threads t = .remove ptr → ¬Usable cfg s connected now ptr
  | _ => True

/-- When it does: the clock is past `m_maxAliveTime` and the first connection in `m_conns`
that is still connected is young. Before that all of `m_conns` is discarded, and what is
released. -/
def AgeOk (cfg : Config) (s : History) (l : Label) : Prop :=
  match l with
  | .getConnection _ connected now =>
      if cfg.maxAliveTime.toUInt64 ≤ now then
        ∀ c, s.pool.conns.find? connected = some c → Young cfg s.born now c
      else ∀ c ∈ s.pool.conns, ¬Usable cfg s (connected c) now c
  | .check t connected now => cfg.maxAliveTime.toUInt64 < now ∨
      ∀ ptr, s.pool.threads t = .released ptr → ¬Usable cfg s connected now ptr
  | _ => True

theorem scan_of_le {info : ℕ → Conn} (hinfo : ∀ c, (info c).createTime = 0)
    (connected : ℕ → Bool) {now : UInt64} (hnow : cfg.maxAliveTime.toUInt64 ≤ now) :
    ∀ conns : List ℕ,
      (Pool.scan cfg info connected now conns).2.1 = conns.find? connected ∧
        ∀ c ∈ (Pool.scan cfg info connected now conns).1, connected c = false
  | [] => ⟨rfl, fun c hc => absurd hc List.not_mem_nil⟩
  | c :: conns => by
      obtain ⟨hptr, hinvalid⟩ := scan_of_le hinfo connected hnow conns
      have hyoung : ¬((info c).createTime + cfg.maxAliveTime.toUInt64 > now) := by
        rw [hinfo c, UInt64.zero_add]
        exact UInt64.not_lt.mpr hnow
      rw [Pool.scan, List.find?_cons]
      cases hc : connected c with
      | true =>
          rw [if_neg (by simpa using hyoung)]
          exact ⟨rfl, fun d hd => absurd hd List.not_mem_nil⟩
      | false =>
          rw [if_pos (by simp)]
          refine ⟨hptr, fun d hd => ?_⟩
          rcases List.mem_cons.mp hd with rfl | hd
          · exact hc
          · exact hinvalid d hd

theorem scan_of_lt {info : ℕ → Conn} (hinfo : ∀ c, (info c).createTime = 0)
    (connected : ℕ → Bool) {now : UInt64} (hnow : now < cfg.maxAliveTime.toUInt64) :
    ∀ conns : List ℕ, Pool.scan cfg info connected now conns = (conns, none, [])
  | [] => rfl
  | c :: conns => by
      have hyoung : (info c).createTime + cfg.maxAliveTime.toUInt64 > now := by
        rw [hinfo c, UInt64.zero_add]
        exact hnow
      rw [Pool.scan, if_pos (by simp [hyoung]), scan_of_lt hinfo connected hnow conns]

theorem timeless_of_reachable (h : (machine cfg n).Reachable (fun _ _ => True) s) :
    s.pool.Timeless := by
  have hstart : (machine cfg n).start.pool.Timeless := fun _ => rfl
  refine Machine.Reachable.invariant (I := fun s => s.pool.Timeless) h hstart ?_
  intro s s' l htimeless _ hstep
  obtain ⟨_, hpool, _⟩ := pool_step hstep
  obtain ⟨p, _, heffect⟩ := Pool.stepIn_effect hpool
  exact htimeless.of_effect heffect

theorem fair_getConnection_iff (htimeless : s.pool.Timeless) {t : ℕ} {connected : ℕ → Bool}
    {now time : UInt64} (hstep : step cfg n s (.getConnection t connected now, time) = some s') :
    Fair cfg s (.getConnection t connected now) s' ↔
      AgeOk cfg s (.getConnection t connected now) := by
  obtain ⟨_, hpool, _⟩ := pool_step hstep
  have hthread : s'.pool.threads t = .discard
      (Pool.scan cfg s.pool.info connected now s.pool.conns).1
      (Pool.scan cfg s.pool.info connected now s.pool.conns).1.length
      (Pool.scan cfg s.pool.info connected now s.pool.conns).2.1 :=
    Pool.threads_getConnection hpool
  have hfair : Fair cfg s (.getConnection t connected now) s' ↔
      (∀ c, (Pool.scan cfg s.pool.info connected now s.pool.conns).2.1 = some c →
        Young cfg s.born now c) ∧
      ∀ c ∈ (Pool.scan cfg s.pool.info connected now s.pool.conns).1,
        ¬Usable cfg s (connected c) now c := by
    constructor
    · intro h
      exact h _ _ _ hthread
    · intro h invalid size ptr heq
      rw [hthread] at heq
      cases heq
      exact h
  rw [hfair, AgeOk]
  split_ifs with hnow
  · obtain ⟨hptr, hinvalid⟩ := scan_of_le htimeless connected hnow s.pool.conns
    rw [hptr]
    refine and_iff_left fun c hc husable => ?_
    rw [hinvalid c hc] at husable
    exact Bool.false_ne_true husable.1
  · rw [scan_of_lt htimeless connected (UInt64.not_le.mp hnow)]
    exact and_iff_right fun c hc => nomatch hc

theorem fair_check_iff (htimeless : s.pool.Timeless) {t : ℕ} {connected : Bool}
    {now time : UInt64} (hstep : step cfg n s (.check t connected now, time) = some s') :
    Fair cfg s (.check t connected now) s' ↔ AgeOk cfg s (.check t connected now) := by
  obtain ⟨_, hpool, _⟩ := pool_step hstep
  obtain ⟨ptr, hptr, hthread⟩ := Pool.threads_check hpool
  change s.pool.threads t = _ at hptr
  have hworn : Pool.worn cfg (s.pool.info ptr) connected now = true ↔
      connected = false ∨ ¬cfg.maxAliveTime.toUInt64 < now ∨
        ¬(s.pool.info ptr).request ≤ cfg.maxRequest.toUInt64 := by
    rw [Pool.worn, htimeless ptr, UInt64.zero_add]
    simp only [Bool.or_eq_true, Bool.not_eq_true', decide_eq_true_eq, ge_iff_le, gt_iff_lt,
      UInt64.not_lt, UInt64.not_le, or_assoc]
  constructor
  · intro hfair
    by_cases hnow : cfg.maxAliveTime.toUInt64 < now
    · exact Or.inl hnow
    · refine Or.inr fun ptr' hptr' => ?_
      obtain rfl : ptr = ptr' := by
        rw [hptr] at hptr'
        exact Phase.released.inj hptr'
      refine hfair ptr hptr ?_
      rw [hthread, if_pos (hworn.mpr (Or.inr (Or.inl hnow)))]
  · intro hok ptr' hptr' hremove husable
    obtain rfl : ptr = ptr' := by
      rw [hptr] at hptr'
      exact Phase.released.inj hptr'
    rcases hok with hnow | hnot
    · rw [hthread] at hremove
      split_ifs at hremove with hw
      obtain ⟨hconnected, _, hbudget⟩ := husable
      rcases hworn.mp hw with h | h | h
      · rw [h] at hconnected
        exact Bool.false_ne_true hconnected
      · exact h hnow
      · exact h hbudget
    · exact hnot ptr hptr husable

/-- **Ages.** Since `m_createTime` is always 0, both comparisons only look at the clock. In
every state that a run with a clock that does not go back comes to, a step of
`getConnection` or `ReleasePtr` respects the ages of the connections if and only if
`AgeOk` holds. -/
theorem fair_iff (cfg : Config) (n : ℕ) {s s' : History} {l : Label × UInt64}
    (h : (machine cfg n).Reachable (fun _ _ => True) s)
    (hstep : (machine cfg n).step s l = some s') : Fair cfg s l.1 s' ↔ AgeOk cfg s l.1 := by
  have htimeless := timeless_of_reachable h
  obtain ⟨l, time⟩ := l
  cases l with
  | getConnection t connected now => exact fair_getConnection_iff htimeless hstep
  | check t connected now => exact fair_check_iff htimeless hstep
  | _ => exact Iff.rfl

/-- A connection is made at 100, put back at 101, and asked for again. -/
def reuse : List (Label × UInt64) :=
  [(.getConnection 0 (fun _ => true) 100, 100), (.subtract 0, 100), (.connect 0, 100),
    (.count 0, 100), (.hand 0, 100), (.release 0 0, 101), (.check 0 true 101, 101),
    (.give 0, 101)]

theorem fair_iff_young : ∃ s s', (machine ⟨10, 1⟩ 1).Reachable (fun _ _ => True) s ∧
    (machine ⟨10, 1⟩ 1).step s (.getConnection 0 (fun _ => true) 105, 105) = some s' ∧
    Fair ⟨10, 1⟩ s (.getConnection 0 (fun _ => true) 105) s' := by
  obtain ⟨s, hs, hborn, hsome⟩ :
      ∃ s, (machine ⟨10, 1⟩ 1).Reachable (fun _ _ => True) s ∧ s.born 0 = 100 ∧
        s.pool.conns = [0] ∧
        ((machine ⟨10, 1⟩ 1).step s (.getConnection 0 (fun _ => true) 105, 105)).isSome :=
    Lib.Machine.exists_of_exec reuse (by decide)
  obtain ⟨hconns, hsome⟩ := hsome
  obtain ⟨s', hstep⟩ := Option.isSome_iff_exists.mp hsome
  refine ⟨s, s', hs, hstep, (fair_iff ⟨10, 1⟩ 1 hs hstep).mpr ?_⟩
  rw [AgeOk, if_pos (by decide), hconns]
  intro c hc
  obtain rfl : 0 = c := by simpa using hc
  rw [Young, hborn]
  decide

/-- At 1000 the connection is 900 milliseconds old, and is handed out. -/
theorem getConnection_old : ∃ s s', (machine ⟨10, 1⟩ 1).Reachable (fun _ _ => True) s ∧
    (machine ⟨10, 1⟩ 1).step s (.getConnection 0 (fun _ => true) 1000, 1000) = some s' ∧
    s.born 0 = 100 ∧ s'.pool.threads 0 = .discard [] 0 (some 0) ∧
    ¬Fair ⟨10, 1⟩ s (.getConnection 0 (fun _ => true) 1000) s' := by
  obtain ⟨s, hs, hborn, hany⟩ :
      ∃ s, (machine ⟨10, 1⟩ 1).Reachable (fun _ _ => True) s ∧ s.born 0 = 100 ∧
        ((machine ⟨10, 1⟩ 1).step s (.getConnection 0 (fun _ => true) 1000, 1000)).map
          (fun s' => s'.pool.threads 0) = some (.discard [] 0 (some 0)) :=
    Lib.Machine.exists_of_exec reuse (by decide)
  obtain ⟨s', hstep, hthread⟩ := Option.map_eq_some_iff.mp hany
  refine ⟨s, s', hs, hstep, hborn, hthread, fun hfair => ?_⟩
  have hyoung := (hfair _ _ _ hthread).1 0 rfl
  rw [Young, hborn] at hyoung
  exact absurd hyoung (by decide)

/-! ## Requests -/

/-- What `m_request` says about a connection that clients had `handed` times. -/
structure Budget (cfg : Config) (n : ℕ) (s : History) : Prop where
  sound : Pool.Sound n s.pool
  fresh : ∀ c, s.pool.next ≤ c → s.pool.info c = .new
  used : ∀ c, s.handed c = (s.pool.info c).request.toNat + s.pool.held.count c
  bound : ∀ c, (s.pool.info c).request.toNat ≤ cfg.maxRequest.toNat
  held : ∀ c ∈ s.pool.held, (s.pool.info c).request.toNat < cfg.maxRequest.toNat
  picked : ∀ t < n, ∀ c, (s.pool.threads t).picked = some c →
    (s.pool.info c).request.toNat < cfg.maxRequest.toNat

/-- No connection in `m_conns` that is still connected has used up its budget. -/
def BudgetOk (cfg : Config) (s : History) (l : Label × UInt64) : Prop :=
  match l.1 with
  | .getConnection _ connected _ => ∀ c ∈ s.pool.conns, connected c = true →
      (s.pool.info c).request < cfg.maxRequest.toUInt64
  | _ => True

instance (cfg : Config) (s : History) (l : Label × UInt64) : Decidable (BudgetOk cfg s l) := by
  unfold BudgetOk
  split <;> infer_instance

theorem scan_picked (info : ℕ → Conn) (connected : ℕ → Bool) (now : UInt64) {c : ℕ} :
    ∀ conns : List ℕ, (Pool.scan cfg info connected now conns).2.1 = some c →
      c ∈ conns ∧ connected c = true
  | [], h => nomatch h
  | d :: conns, h => by
      rw [Pool.scan] at h
      split_ifs at h with hd
      · obtain ⟨hmem, hc⟩ := scan_picked info connected now conns h
        exact ⟨List.mem_cons_of_mem d hmem, hc⟩
      · obtain rfl := Option.some.inj h
        rw [Bool.or_eq_true, not_or, Bool.not_eq_true', Bool.not_eq_false] at hd
        exact ⟨List.mem_cons_self, hd.1⟩

/-- A connection that a client holds is held once, was made, and is in no call's hands. -/
theorem Budget.of_held (h : Budget cfg n s) {c : ℕ} (hc : c ∈ s.pool.held) :
    s.pool.held.count c = 1 ∧ c < s.pool.next ∧ Pool.Untouched n s.pool c := by
  have honce := h.sound.once c
  have hpos := List.count_pos_iff.mpr hc
  have hle := Pool.made_le_one s.pool.next c
  rw [Pool.places] at honce
  refine ⟨by omega, ?_, Pool.untouched_of_sum (by omega)⟩
  by_contra hge
  rw [Pool.made, if_neg hge] at honce
  omega

theorem mem_hand_of_picked {p : Phase} {c : ℕ} (h : p.picked = some c) : c ∈ p.hand := by
  cases p <;> simp_all [Phase.picked, Phase.hand]

/-- A step that leaves the connections as they are, but may have made one more. -/
theorem Budget.of_same {t : ℕ} {p : Phase} (h : Budget cfg n s)
    (hsound : Pool.Sound n s'.pool) (hinfo : s'.pool.info = s.pool.info)
    (hheld : s'.pool.held = s.pool.held) (hnext : s.pool.next ≤ s'.pool.next)
    (hhanded : s'.handed = s.handed)
    (hthreads : s'.pool.threads = Function.update s.pool.threads t p)
    (hp : ∀ c, p.picked = some c → (s.pool.info c).request.toNat < cfg.maxRequest.toNat) :
    Budget cfg n s' where
  sound := hsound
  fresh c hc := by rw [hinfo]; exact h.fresh c (hnext.trans hc)
  used c := by rw [hhanded, hinfo, hheld]; exact h.used c
  bound c := by rw [hinfo]; exact h.bound c
  held c hc := by rw [hheld] at hc; rw [hinfo]; exact h.held c hc
  picked u hu c hc := by
    rw [hthreads, Function.update_apply] at hc
    rw [hinfo]
    split_ifs at hc with heq
    · exact hp c hc
    · exact h.picked u hu c hc

theorem toNat_used {c : Conn} (h : c.request.toNat < cfg.maxRequest.toNat) :
    (Pool.Conn.used c).request.toNat = c.request.toNat + 1 := by
  have hmax := cfg.maxRequest.toNat_lt
  rw [Pool.Conn.used, UInt64.toNat_add, UInt64.toNat_one, Nat.mod_eq_of_lt (by omega)]

/-- A client lets go of a connection. -/
theorem Budget.of_release {t ptr : ℕ} {p : Phase} (h : Budget cfg n s)
    (hsound : Pool.Sound n s'.pool) (hmem : ptr ∈ s.pool.held)
    (hinfo : s'.pool.info =
      Function.update s.pool.info ptr (Pool.Conn.used (s.pool.info ptr)))
    (hheld : s'.pool.held = s.pool.held.erase ptr) (hnext : s'.pool.next = s.pool.next)
    (hhanded : s'.handed = s.handed)
    (hthreads : s'.pool.threads = Function.update s.pool.threads t p)
    (hp : p.picked = none) : Budget cfg n s' := by
  obtain ⟨hcount, hlt, huntouched⟩ := h.of_held hmem
  have hrequest := toNat_used (h.held ptr hmem)
  have hother : ∀ {c}, c ≠ ptr → s'.pool.info c = s.pool.info c := by
    intro c hc
    rw [hinfo, Function.update_of_ne hc]
  have hself : s'.pool.info ptr = Pool.Conn.used (s.pool.info ptr) := by
    rw [hinfo, Function.update_self]
  refine ⟨hsound, fun c hc => ?_, fun c => ?_, fun c => ?_, fun c hc => ?_,
    fun u hu c hc => ?_⟩
  · rw [hnext] at hc
    rw [hother (by omega)]
    exact h.fresh c hc
  · rw [hhanded, h.used c, hheld]
    by_cases hc : c = ptr
    · subst hc
      rw [hself, hrequest, List.count_erase_self, hcount]
    · rw [hother hc, List.count_erase_of_ne hc]
  · by_cases hc : c = ptr
    · subst hc
      rw [hself, hrequest]
      exact h.held c hmem
    · rw [hother hc]
      exact h.bound c
  · rw [hheld] at hc
    have hne : c ≠ ptr := by
      rintro rfl
      have hpos := List.count_pos_iff.mpr hc
      rw [List.count_erase_self, hcount] at hpos
      omega
    rw [hother hne]
    exact h.held c (List.mem_of_mem_erase hc)
  · rw [hthreads, Function.update_apply] at hc
    split_ifs at hc with heq
    · rw [hp] at hc
      cases hc
    · have hne : c ≠ ptr := by
        rintro rfl
        exact huntouched u hu (mem_hand_of_picked hc)
      rw [hother hne]
      exact h.picked u hu c hc

/-- A client gets a connection. -/
theorem Budget.of_hand {t ptr : ℕ} {p : Phase} (h : Budget cfg n s) (ht : t < n)
    (hsound : Pool.Sound n s'.pool) (hinfo : s'.pool.info = s.pool.info)
    (hheld : s'.pool.held = ptr :: s.pool.held) (hnext : s'.pool.next = s.pool.next)
    (hhanded : s'.handed = fun c => s.handed c + if some ptr = some c then 1 else 0)
    (hthreads : s'.pool.threads = Function.update s.pool.threads t p)
    (hp : p.picked = none) (hbefore : (s.pool.threads t).picked = some ptr) :
    Budget cfg n s' := by
  refine ⟨hsound, fun c hc => ?_, fun c => ?_, fun c => ?_, fun c hc => ?_,
    fun u hu c hc => ?_⟩
  · rw [hinfo]
    exact h.fresh c (hnext ▸ hc)
  · rw [hhanded, hinfo, hheld, List.count_cons]
    simp only [h.used c, Option.some.injEq, beq_iff_eq]
    omega
  · rw [hinfo]
    exact h.bound c
  · rw [hinfo]
    rw [hheld] at hc
    rcases List.mem_cons.mp hc with rfl | hc
    · exact h.picked t ht c hbefore
    · exact h.held c hc
  · rw [hthreads, Function.update_apply] at hc
    rw [hinfo]
    split_ifs at hc with heq
    · rw [hp] at hc
      cases hc
    · exact h.picked u hu c hc

theorem Budget.step (hmax : 1 ≤ cfg.maxRequest.toNat) (h : Budget cfg n s)
    (hok : BudgetOk cfg s l) (hstep : step cfg n s l = some s') : Budget cfg n s' := by
  obtain ⟨ht, hpool, hhanded⟩ := pool_step hstep
  have hsound := h.sound.stepIn ht hpool
  obtain ⟨p, hthreads, heffect⟩ := Pool.stepIn_effect hpool
  have hsame : Pool.handedTo s.pool l.1 = none → s'.handed = s.handed := by
    intro hnone
    rw [hhanded, hnone]
    rfl
  cases heffect with
  | quiet hinfo hheld hnext hnone hpicked =>
      refine h.of_same hsound hinfo hheld hnext.ge (hsame hnone) hthreads fun c hc => ?_
      rcases hpicked with hp | hp
      · rw [hp] at hc
        cases hc
      · exact h.picked _ ht c (hp ▸ hc)
  | scan t connected now hlabel hinfo hheld hnext hnone hpicked =>
      refine h.of_same hsound hinfo hheld hnext.ge (hsame hnone) hthreads fun c hc => ?_
      obtain ⟨hmem, hconnected⟩ := scan_picked _ _ _ _ (hpicked ▸ hc)
      rw [BudgetOk, hlabel] at hok
      have hlt := UInt64.lt_iff_toNat_lt.mp (hok c hmem hconnected)
      rwa [UInt32.toNat_toUInt64] at hlt
  | connect hinfo hheld hnext hnone hpicked =>
      have hinfo' : s'.pool.info = s.pool.info := by
        rw [hinfo, ← h.fresh _ le_rfl, Function.update_eq_self]
      refine h.of_same hsound hinfo' hheld (by omega) (hsame hnone) hthreads fun c hc => ?_
      rw [hpicked] at hc
      obtain rfl := Option.some.inj hc
      rw [h.fresh _ le_rfl]
      exact hmax
  | hand ptr hinfo hheld hnext hsome hpicked hbefore =>
      exact h.of_hand ht hsound hinfo hheld hnext (hsome ▸ hhanded) hthreads hpicked hbefore
  | release ptr hmem hinfo hheld hnext hnone hpicked =>
      exact h.of_release hsound hmem hinfo hheld hnext (hsame hnone) hthreads hpicked

theorem Budget.start : Budget cfg n (machine cfg n).start where
  sound := (Pool.Sound.start : Pool.Sound n (Pool.machine cfg n).start)
  fresh _ _ := rfl
  used _ := rfl
  bound _ := Nat.zero_le _
  held _ hc := absurd hc List.not_mem_nil
  picked _ _ _ hc := nomatch hc

/-- **Requests.** If `getConnection` is only called while no connection in `m_conns` has
used up its budget, no connection is handed out more than `m_maxRequest` times. -/
theorem handed_le (cfg : Config) (n : ℕ) (hmax : 1 ≤ cfg.maxRequest) {s : History}
    (h : (machine cfg n).Reachable (BudgetOk cfg) s) (c : ℕ) :
    s.handed c ≤ cfg.maxRequest.toNat := by
  have hbudget : Budget cfg n s :=
    h.invariant Budget.start fun hb hok hstep =>
      hb.step (UInt32.le_iff_toNat_le.mp hmax) hok hstep
  rw [hbudget.used c]
  by_cases hc : c ∈ s.pool.held
  · rw [(hbudget.of_held hc).1]
    exact hbudget.held c hc
  · rw [List.count_eq_zero.mpr hc]
    exact hbudget.bound c

theorem handed_le_one : ∃ s, (machine ⟨10, 1⟩ 1).Reachable (BudgetOk ⟨10, 1⟩) s ∧
    s.handed 0 = 1 ∧ s.handed 0 ≤ (1 : UInt32).toNat := by
  obtain ⟨s, hs, hone⟩ :
      ∃ s, (machine ⟨10, 1⟩ 1).Reachable (BudgetOk ⟨10, 1⟩) s ∧ s.handed 0 = 1 :=
    Lib.Machine.exists_of_exec reuse (by decide)
  exact ⟨s, hs, hone, handed_le ⟨10, 1⟩ 1 (by decide) hs 0⟩

/-- With a budget of one request, the connection is handed out a second time. -/
theorem handed_twice : ∃ s, (machine ⟨10, 1⟩ 1).Reachable (fun _ _ => True) s ∧
    s.pool.deleted = [] ∧ s.handed 0 = 2 ∧ ¬s.handed 0 ≤ (1 : UInt32).toNat := by
  exact Lib.Machine.exists_of_exec
    (reuse ++ [(.getConnection 0 (fun _ => true) 105, 105), (.subtract 0, 105), (.hand 0, 105)])
    (by decide)

end History

end HttpConnectionPool

end Http

end Skt
